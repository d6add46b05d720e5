import ScriptBridge.Host.Catalog
import ScriptBridge.Host.Plan
import ScriptBridge.Host.Registry
import ScriptBridge.Options
import ScriptBridge.Script.Report
import ScriptBridge.Vm.Table

/-!
# The world

Everything a run changes: the heap, the running machine with its session, the machines that are
set aside, and what the host holds on to. Actions pass the world along; those that cannot fail
are `Action`s, those that can raise inside the machine are `Script`s, and those that can throw an
exception of the host are `Host`s.
-/

namespace ScriptBridge

/-! ## Stores -/

/-- Cells by index. A cell that was given up stays empty, so an index never gets a second
meaning. -/
structure Store (α : Type) where
  cells : Array (Option α) := #[]

namespace Store

variable {α : Type}

instance : Inhabited (Store α) := ⟨{}⟩

def get? (s : Store α) (i : Nat) : Option α := s.cells[i]?.join

def contains (s : Store α) (i : Nat) : Bool := (s.get? i).isSome

/-- The index the next cell will get. -/
def next (s : Store α) : Nat := s.cells.size

def add (s : Store α) (a : α) : Store α := ⟨s.cells.push (some a)⟩

def erase (s : Store α) (i : Nat) : Store α := ⟨s.cells.setIfInBounds i none⟩

/-- Changes a cell that is there. -/
def modify (s : Store α) (i : Nat) (f : α → α) : Store α := ⟨s.cells.modify i (·.map f)⟩

def any (s : Store α) (p : α → Bool) : Bool :=
  s.cells.any fun
    | some a => p a
    | none => false

/-- The sum of a measure over all cells. -/
def sum (s : Store α) (f : α → Nat) : Nat :=
  s.cells.foldl (fun n c => n + (c.map f).getD 0) 0

end Store

/-! ## Contents of the heap -/

/-- The handlers behind proxies and the helper functions of scripts. -/
inductive Handler where
  | objectIndex
  | objectAssign
  | proxyText
  | proxyCollected
  | typeIndex
  | typeAssign
  | typeCall
  | delegateCall
  | errorText
  | importType
  | methodBySignature
  | constructorBySignature
deriving DecidableEq, Repr

/-- What a function runs. -/
inductive Code where
  | script (body : List Op)
  | dispatcher (d : DispatcherRef)
  | handler (h : Handler)

structure Function where
  label : Label
  code : Code

/-- What a userdata carries. -/
inductive Payload where
  | integer (n : Int)
  /-- A proxy of the object with this id. -/
  | proxy (id : Nat)
  /-- An exception on its way through the machine, and where it was raised. -/
  | error (e : Exception) (location : String)
deriving DecidableEq

structure Userdata where
  payload : Payload
  metatable : Option TableRef
  /-- The machine that made it. -/
  home : Nat
  /-- Its finalizer was scheduled. -/
  finalized : Bool := false

/-- A handle on a value in a session's registry table. -/
structure Handle where
  session : Nat
  reference : Int
deriving DecidableEq

/-- The bag of data behind an object of a host class. -/
structure Bag where
  slots : Dictionary String HostValue := []
  items : List (HostValue × HostValue) := []
  handlers : Dictionary String (List ObjectRef) := []
deriving Inhabited

/-- What calling a delegate runs. -/
inductive DelegateBody where
  | statements (body : List Stmt)
  /-- A script function, called with the signature of the method. -/
  | script (function : HandleRef) (signature : Method)

inductive ObjectData where
  | bag (b : Bag)
  /-- Other data of the host. -/
  | foreign
  | array (element : HostType) (items : Array HostValue)
  | delegate (body : DelegateBody)
  /-- A type object. -/
  | typeOf (cls : Class)
  /-- An interface that a table implements. -/
  | scriptTable (table : HandleRef)
  /-- A subscription to an event. -/
  | event (target : Option ObjectRef) (event : Event)

structure HostObject where
  cls : Class
  data : ObjectData

/-- A cell of static storage. -/
inductive Cell where
  | value (v : HostValue)
  | handlers (hs : List ObjectRef)

/-! ## Machines -/

/-- A call under way. Its first slot is at `base`. -/
structure Frame where
  base : Nat
  function : Option FunctionRef
deriving DecidableEq, Repr

/-- A userdata that waits for its finalizer. -/
structure Pending where
  payload : Payload
  metatable : TableRef

structure Limits where
  maxCallDepth : Nat := 200
  maxStack : Nat := 1000000

/-- What is attached to a machine. -/
inductive AppData where
  | none
  | text (s : String)
  /-- The machine's session. -/
  | session
deriving DecidableEq

/-- Whether script functions and tables become delegates and interfaces. -/
inductive AdapterPolicy where
  | build
  | refuse
deriving DecidableEq

/-- The state of a session. -/
structure Session where
  id : Nat
  options : Options
  adapters : AdapterPolicy
  catalog : Catalog := .initial
  registry : Registry := {}
  /-- The table from ids to proxies, which it holds weakly. -/
  objects : TableRef
  members : Dictionary (String × Binding × String) FoundMember := []
  constructors : Dictionary String DispatcherRef := []
  typeObjects : Dictionary String ObjectRef := []
  /-- Ids that were given to a proxy. -/
  materialized : List Nat := []
  /-- Subscriptions made by scripts: the event object and the handler, oldest first. -/
  events : List (ObjectRef × ObjectRef) := []
  /-- References whose handles are gone, oldest first. -/
  releases : List Int := []

structure Machine where
  id : Nat
  stack : Array Value := #[]
  /-- The calls under way, the running one first. -/
  frames : List Frame := [⟨0, none⟩]
  registry : TableRef
  globals : TableRef
  /-- Userdata that wait for their finalizers, oldest first. -/
  graveyard : List Pending := []
  nextRef : Int := 1
  appData : AppData := .none
  limits : Limits := {}
  session : Option Session := none

instance : Inhabited Machine := ⟨{ id := 0, registry := ⟨0⟩, globals := ⟨0⟩ }⟩

/-! ## References of every kind -/

inductive Ref where
  | table (t : TableRef)
  | function (f : FunctionRef)
  | userdata (u : UserdataRef)
  | object (o : ObjectRef)
  | handle (h : HandleRef)
  | dispatcher (d : DispatcherRef)
  | cell (c : CellRef)
deriving DecidableEq, Repr

def Value.refs : Value → List Ref
  | .table t => [.table t]
  | .function f => [.function f]
  | .userdata u => [.userdata u]
  | _ => []

def HostValue.refs : HostValue → List Ref
  | .object o => [.object o]
  | .handle _ h => [.handle h]
  | _ => []

/-- A reference that was let go of, perhaps while a table was being written. -/
structure Dropped where
  ref : Ref
  during : Option TableRef := none

/-- A call of a host body under way. -/
structure Activation where
  cls : Class
  target : Option ObjectRef
  arguments : List HostValue

structure World where
  tables : Store Table := {}
  functions : Store Function := {}
  userdata : Store Userdata := {}
  objects : Store HostObject := {}
  handles : Store Handle := {}
  dispatchers : Store Dispatcher := {}
  /-- Static storage of classes and the default values of parameters. -/
  cells : Store Cell := {}
  /-- The running machine. -/
  machine : Machine
  /-- Machines that are set aside. -/
  parked : List Machine := []
  /-- The ids of the machines of sessions, in the order they were opened. -/
  sessions : List Nat := []
  named : Dictionary String Exception := []
  nextException : Nat := 0
  kept : Dictionary String Value := []
  bindings : Dictionary String HostValue := []
  wrappers : Dictionary String DispatcherRef := []
  /-- Host calls under way, the innermost first. -/
  activations : List Activation := []
  /-- What the host holds between two steps of its own. -/
  held : List Ref := []
  /-- References let go of that were not looked at yet, oldest first. -/
  dropped : List Dropped := []
  trace : Array Report := #[]

instance : Inhabited World := ⟨{ machine := default }⟩

/-! ## Actions -/

/-- Why a script stops. -/
inductive Raise where
  | runtime (v : Value)
  | stackOverflow
  /-- The bound on nesting was reached; this is no error of the script and nothing catches it. -/
  | exhausted
deriving DecidableEq, Inhabited

/-- Why host code stops. -/
inductive Failure where
  | exception (e : Exception)
  | exhausted
deriving DecidableEq, Inhabited

abbrev Action := StateM World

abbrev Script := EStateM Raise World

abbrev Host := EStateM Failure World

/-- An action that cannot fail, where failing is possible. -/
instance {ε : Type} : MonadLift Action (EStateM ε World) where
  monadLift x := fun w => let (a, w) := x w; .ok a w

/-- Runs a fallible action and gives its outcome; the world keeps what it did before failing. -/
def attempt {ε α : Type} (x : EStateM ε World α) : Action (Except ε α) := fun w =>
  match x w with
  | .ok a w => (.ok a, w)
  | .error e w => (.error e, w)

/-! ## Parts of the world -/

def modifyMachine (f : Machine → Machine) : Action Unit :=
  modify fun w => { w with machine := f w.machine }

def modifySession (f : Session → Session) : Action Unit :=
  modifyMachine fun m => { m with session := m.session.map f }

def readObject? (o : ObjectRef) : Action (Option HostObject) := do
  return (← get).objects.get? o.index

/-- Whether a value is still in the heap; values that need no cell always are. -/
def World.isLive (w : World) : Value → Bool
  | .table t => w.tables.contains t.index
  | .function f => w.functions.contains f.index
  | .userdata u => w.userdata.contains u.index
  | _ => true

def World.table (w : World) (t : TableRef) : Table := (w.tables.get? t.index).getD {}

/-- A field of a table by name. -/
def World.fieldOf (w : World) (t : TableRef) (name : String) : Value :=
  (w.table t).getText w.isLive name

/-! ## New cells -/

def newTable (t : Table) : Action TableRef := modifyGet fun w =>
  (⟨w.tables.next⟩, { w with tables := w.tables.add t })

def newFunction (f : Function) : Action FunctionRef := modifyGet fun w =>
  (⟨w.functions.next⟩, { w with functions := w.functions.add f })

/-- A new userdata of the running machine. -/
def newUserdata (payload : Payload) (metatable : Option TableRef) : Action UserdataRef :=
  modifyGet fun w =>
    (⟨w.userdata.next⟩,
      { w with userdata := w.userdata.add { payload, metatable, home := w.machine.id } })

def newObject (cls : Class) (data : ObjectData) : Action ObjectRef := modifyGet fun w =>
  (⟨w.objects.next⟩, { w with objects := w.objects.add { cls, data } })

def newHandle (h : Handle) : Action HandleRef := modifyGet fun w =>
  (⟨w.handles.next⟩, { w with handles := w.handles.add h })

def newDispatcher (d : Dispatcher) : Action DispatcherRef := modifyGet fun w =>
  (⟨w.dispatchers.next⟩, { w with dispatchers := w.dispatchers.add d })

def newCell (c : Cell) : Action CellRef := modifyGet fun w =>
  (⟨w.cells.next⟩, { w with cells := w.cells.add c })

/-! ## Exceptions -/

/-- A new exception instance. -/
def newException (cause : Cause) : Action Exception := modifyGet fun w =>
  (⟨w.nextException, cause⟩, { w with nextException := w.nextException + 1 })

/-- The named exception of a name; made on first use. -/
def namedException (name : String) : Action Exception := do
  match (← get).named.get? name with
  | some e => return e
  | none =>
    let e ← newException (.message name)
    modify fun w => { w with named := w.named.insert name e }
    return e

/-- Throws a new exception instance. -/
def throwCause {α : Type} (cause : Cause) : Host α := do
  throw (.exception (← newException cause))

/-- The exception a program describes. -/
def ExceptionSpec.build : ExceptionSpec → Action Exception
  | named name => namedException name
  | script message location => newException (.script message location)
  | noOverload callable => newException (.noOverload callable)
  | invalidArgument callable position => newException (.invalidArgument callable position)
  | memberNotFound type member => newException (.memberNotFound type member)
  | invalidTarget text => newException (.invalidTarget text)
  | invalidAssignment text => newException (.invalidAssignment text)
  | staticFromInstance type member => newException (.staticFromInstance type member)
  | typeMismatch expected got => newException (.typeMismatch expected got)
  | duringInvoke callable inner => do
    let e ← inner.build
    newException (.duringInvoke callable e.id e.cause)

end ScriptBridge
