import ScriptBridge.Host.Class

/-!
# Conversions and call plans

A conversion says how one value of the machine is read as a host value. A plan says how each
formal parameter of one method gets its value for one number of arguments. A dispatcher is what
scripts call: candidates in declaration order, and the plan of the last call.
-/

namespace ScriptBridge

inductive Conversion where
  /-- A truth value, number, character or text; a nullable type also takes nil. -/
  | scalar (type : HostType)
  /-- The general conversion. -/
  | any
  /-- A handle on the value; nil gives null. -/
  | handle (kind : HandleKind)
  /-- An exposed object that fits the type; nil gives null. -/
  | object (type : HostType)
  /-- A table read item by item into a new array. -/
  | arrayTable (element : HostType)
  /-- A function made a delegate of the class. -/
  | delegate (cls : Class)
  /-- A table made an implementation of the class. -/
  | interface (cls : Class)

/-- Where the value of a parameter comes from. -/
inductive ArgumentSource where
  /-- One argument. -/
  | single (conversion : Conversion)
  /-- A run of arguments, collected into an array. -/
  | run (element : HostType) (conversions : List Conversion)
  /-- No argument: a new empty array. -/
  | emptyArray (element : HostType)

/-- A parameter filled from arguments, the first of them at `offset`. -/
structure ArgumentSlot where
  param : Nat
  offset : Nat
  source : ArgumentSource

/-- The cells of the class that adapters are made for. -/
def Conversion.cells : Conversion → List CellRef
  | .delegate cls | .interface cls => cls.cells
  | _ => []

def ArgumentSource.cells : ArgumentSource → List CellRef
  | .single c => c.cells
  | .run _ cs => cs.flatMap Conversion.cells
  | .emptyArray _ => []

structure Plan where
  method : Method
  /-- One value for each parameter, for those no slot fills. -/
  template : List HostValue
  slots : List ArgumentSlot
  /-- Parameters whose final values are results of the call. -/
  outSlots : List Nat
  returnsVoid : Bool
  argumentCount : Nat

/-- How a dispatcher finds its target. -/
inductive Binding where
  /-- The bound object, or the first argument. -/
  | onObject
  | static
  | constructor
deriving DecidableEq, Repr

/-- A callable over candidates. -/
structure Dispatcher where
  name : String
  /-- The class the member was looked up on. -/
  cls : Class
  binding : Binding
  candidates : List Method
  bound : Option ObjectRef := none
  plan : Option Plan := none

/-- The description of a dispatcher in messages. -/
def Dispatcher.callable (d : Dispatcher) : String :=
  match d.candidates with
  | [only] => only.callable
  | _ =>
    if d.binding == .constructor then "constructor of '" ++ d.cls.name ++ "'"
    else "method '" ++ d.cls.name ++ "." ++ d.name ++ "'"

/-- What a look-up of a member found. -/
inductive FoundMember where
  | method (dispatcher : DispatcherRef) (function : FunctionRef) (binding : Binding)
  | field (f : Field)
  | property (f : Field)
  | event (e : Event)
  /-- A nested type; nothing when its class was not registered. -/
  | nested (cls : Option Class)

def FoundMember.isStatic : FoundMember → Bool
  | method _ _ binding => binding != .onObject
  | field f | property f => f.isStatic
  | event e => e.isStatic
  | nested _ => true

end ScriptBridge
