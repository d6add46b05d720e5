import ScriptBridge.Script.Program

/-!
# Classes of the host

A class describes what scripts may do with its objects: members in declaration order,
constructors, an indexer, and its place among other classes by name. Members are data: a field
says where it is stored, a method which body it runs. Static storage lives in cells of the heap.
-/

namespace ScriptBridge

/-- A cell of static storage in the heap. -/
structure CellRef where
  index : Nat
deriving DecidableEq, Inhabited, Repr

/-! ## Methods -/

/-- A formal parameter. The type of a variadic one is the type of the array it collects. -/
structure Param where
  type : HostType
  mode : ParamMode := .input
  default : Option HostValue := none
  variadic : Bool := false
deriving DecidableEq, Repr

/-- The element type, if the parameter's type is an array. -/
def Param.element? (p : Param) : Option HostType :=
  match p.type with
  | .array e => some e
  | _ => none

/-- What a method runs. -/
inductive MethodBody where
  | statements (body : List Stmt)
  /-- Runs the body of the delegate it is called on. -/
  | delegateBody
  /-- Subscribes a script function to an event. -/
  | subscribe
  /-- Removes a handler from an event. -/
  | unsubscribe

/-- A method, a constructor, or the call signature of a delegate. Without a body it is abstract. -/
structure Method where
  name : String
  declaringType : String
  params : List Param
  ret : HostType
  isStatic : Bool := false
  isConstructor : Bool := false
  body : Option MethodBody
  /-- The cells that keep the default values of the parameters. -/
  storage : List CellRef := []

namespace Method

/-- The description used in messages. -/
def callable (m : Method) : String :=
  if m.isConstructor then "constructor of '" ++ m.declaringType ++ "'"
  else "method '" ++ m.declaringType ++ "." ++ m.name ++ "'"

/-- The names of the parameter types. -/
def signature (m : Method) : List String := m.params.map (·.type.name)

def isAbstract (m : Method) : Bool := m.body.isNone

/-- The description with the parameter types. -/
def describe (m : Method) : String :=
  m.callable ++ "(" ++ ", ".intercalate m.signature ++ ")"

end Method

/-! ## Other members -/

/-- How a field or property is read. -/
inductive Getter where
  /-- A slot of the target's bag; a target without a bag of the owning class is an error. -/
  | field (slot owner : String)
  /-- A slot of the target's bag; null without a bag. -/
  | slot (name : String)
  | cell (c : CellRef)
  | throws (name : String)
  | arrayLength

/-- How a field or property is written. -/
inductive Setter where
  | field (slot owner : String)
  | slot (name : String)
  | cell (c : CellRef)
  | throws (name : String)

/-- A field or property; what it lacks cannot be done with it. -/
structure Field where
  name : String
  type : HostType
  isStatic : Bool
  get : Option Getter
  set : Option Setter

/-- What happens when a handler is added to or removed from an event. -/
inductive EventHook where
  /-- The handler list of the target's bag under `event`, or the shared list without a target. -/
  | handlers (event : String) (shared : CellRef)
  | throws (name : String)

structure Event where
  name : String
  delegateType : String
  isStatic : Bool
  add : EventHook
  remove : EventHook

/-! ## Storage

The cells that a part of a class keeps, in the order it lets go of them. -/

def Getter.cells : Getter → List CellRef
  | .cell c => [c]
  | _ => []

def Setter.cells : Setter → List CellRef
  | .cell c => [c]
  | _ => []

def Field.cells (f : Field) : List CellRef :=
  (f.get.map Getter.cells).getD [] ++ (f.set.map Setter.cells).getD []

def EventHook.cells : EventHook → List CellRef
  | .handlers _ shared => [shared]
  | .throws _ => []

def Event.cells (e : Event) : List CellRef := e.add.cells ++ e.remove.cells

/-! ## Members -/

/-- The default indexed member: the items of the target's bag. -/
structure Indexer where
  key : HostType
  value : HostType
  get : Bool
  set : Bool

inductive Member where
  | field (f : Field)
  | property (f : Field)
  | method (m : Method)
  | event (e : Event)
  /-- A nested type by its short name and its full name in the catalog. -/
  | nested (name fullName : String)

namespace Member

def name : Member → String
  | field f | property f => f.name
  | method m => m.name
  | event e => e.name
  | nested n _ => n

/-- Nested types count as static. -/
def isStatic : Member → Bool
  | field f | property f => f.isStatic
  | method m => m.isStatic
  | event e => e.isStatic
  | nested _ _ => true

def method? : Member → Option Method
  | method m => some m
  | _ => none

def cells : Member → List CellRef
  | field f | property f => f.cells
  | method m => m.storage
  | event e => e.cells
  | nested _ _ => []

end Member

/-! ## Classes -/

inductive ClassKind where
  | plain
  | interface
  | delegate
  | struct
deriving DecidableEq, Repr

/-- How objects of a class show themselves. -/
inductive Display where
  /-- A fixed text, then the class name in angle brackets. -/
  | labelled (label : String)
  /-- The name of the event the object subscribes to. -/
  | event

structure Class where
  name : String
  kind : ClassKind := .plain
  base : Option String := none
  interfaces : List String := []
  members : List Member := []
  constructors : List Method := []
  indexer : Option Indexer := none
  display : Option Display := none

/-- The text before the last point, if there is a point, and the text behind it. -/
def splitAtLastDot (s : String) : Option String × String :=
  let tail := (s.toList.reverse.takeWhile (· != '.')).reverse
  let rest := s.toList.reverse.dropWhile (· != '.')
  match rest with
  | _ :: front => (some (String.ofList front.reverse), String.ofList tail)
  | [] => (none, String.ofList tail)

namespace Class

/-- Everything before the last point of the name. -/
def namespaceName (c : Class) : String := (splitAtLastDot c.name).1.getD ""

/-- The name behind its last point. -/
def shortName (c : Class) : String := (splitAtLastDot c.name).2

/-- The cells of the members, then those of the constructors. -/
def cells (c : Class) : List CellRef :=
  c.members.flatMap Member.cells ++ c.constructors.flatMap (·.storage)

def membersNamed (c : Class) (name : String) : List Member :=
  c.members.filter (·.name == name)

/-- The methods of a name that the class itself declares. -/
def methodsNamed (c : Class) (name : String) : List Method :=
  (c.membersNamed name).filterMap Member.method?

/-- The call signature of a delegate class. -/
def invokeMethod? (c : Class) : Option Method :=
  if c.kind == .delegate then (c.methodsNamed "Invoke").head? else none

end Class

instance : Inhabited Class := ⟨{ name := "" }⟩

end ScriptBridge
