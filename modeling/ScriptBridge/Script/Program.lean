import ScriptBridge.Vm.Value
import ScriptBridge.Host.Value

/-!
# Programs

What scripts and host bodies are made of. A script function is a list of stack operations (`Op`);
the body of a host method or delegate is a list of statements (`Stmt`) over expressions (`Expr`),
and each side can run the other: a statement may run stack operations, and an operation may call
into the host. Values are written as literals, which are built anew each time they are reached.
-/

namespace ScriptBridge

/-! ## Exceptions by description -/

/-- An exception as a program names it. A named one is created on first use and is the same
instance afterwards; any other is a new instance each time. -/
inductive ExceptionSpec where
  | named (name : String)
  | script (message location : String)
  | noOverload (callable : String)
  | invalidArgument (callable : String) (position : Nat)
  | memberNotFound (type member : String)
  | invalidTarget (text : String)
  | invalidAssignment (text : String)
  | staticFromInstance (type member : String)
  | typeMismatch (expected got : String)
  | duringInvoke (callable : String) (inner : ExceptionSpec)
deriving Inhabited

/-! ## Operations and bodies -/

/-- What a function says about itself. -/
inductive Label where
  | none
  | named (name : String)
  /-- A script function; the text is the location its errors report. -/
  | chunk (location : String)
deriving DecidableEq, Inhabited

inductive Arithmetic where
  | add | sub | mul | div
deriving DecidableEq

/-- A question that the machine as it is answers. -/
inductive Query where
  | absIndex (i : Int)
  | getTop
  | checkStack (n : Int)
  | typeName (i : Int)
  | isNil (i : Int)
  | isNoneOrNil (i : Int)
  | isNumber (i : Int)
  | isString (i : Int)
  | toBoolean (i : Int)
  | toNumber (i : Int)
  | toText (i : Int)
  | rawEqual (i j : Int)
  | callDepth
  | pendingFinalizers
  | appData
deriving DecidableEq, Repr

/-- A formal parameter's direction. -/
inductive ParamMode where
  | input
  | output
  | reference
deriving DecidableEq, Repr

mutual

/-- A value of the machine. -/
inductive Literal where
  | nil
  | boolean (b : Bool)
  | number (n : Number)
  | text (s : String)
  /-- The value kept under a name. -/
  | kept (name : String)
  /-- A new table: first the items under 1, 2, …, then the entries. -/
  | table (items : List Literal) (entries : List (Literal × Literal))
  | function (label : Label) (body : List Op)

/-- A value of the host. -/
inductive HostLiteral where
  | value (v : HostValue)
  | variable (name : String)
  /-- A new object of a class with a bag of slots. -/
  | object (className : String) (slots : List (String × HostLiteral))
  /-- A new object of a class with other data of the host. -/
  | foreign (className : String)
  | array (element : HostType) (items : List HostLiteral)
  | typeObject (className : String)
  | delegate (className : String) (body : List Stmt)

/-- A stack operation. Positions are stack positions of the running frame. -/
inductive Op where
  | push (values : List Literal)
  | newTable
  | pushFunction (label : Label) (body : List Op)
  | setTop (n : Int)
  | pop (n : Int)
  | remove (i : Int)
  | insert (i : Int)
  | replace (i : Int)
  | copy (i : Int)
  | rawGet (i : Int)
  | rawGetField (i : Int) (name : String)
  | rawGetInt (i : Int) (n : Int)
  | rawSet (i : Int)
  | rawSetField (i : Int) (name : String)
  | rawSetInt (i : Int) (n : Int)
  | getTable (i : Int)
  | getField (i : Int) (name : String)
  | setTable (i : Int)
  | setField (i : Int) (name : String)
  | getGlobal (name : String)
  | setGlobal (name : String)
  | pushGlobals
  | pushRegistry
  | setMetatable (i : Int)
  | newUserdata (payload : Int)
  | call (nargs nresults : Int)
  | pushRef (r : Int)
  | releaseRef (r : Int)
  | keep (name : String) (i : Int)
  | unkeep (name : String)
  | setAppText (s : String)
  | popValue
  | value (i : Int)
  | dump (i : Int)
  | userdata (i : Int)
  | rawLength (i : Int)
  | next (i : Int)
  | getMetatable (i : Int)
  | getMetafield (i : Int) (name : String)
  | protectedCall (nargs nresults : Int)
  | location (level : Nat)
  | describe (i : Int)
  | createRef
  | collect
  | raise
  | raiseOverflow
  | runtimeError (message : String)
  | errorAt (level : Nat) (message : String)
  | raiseHost (spec : ExceptionSpec)
  | return (n : Nat)
  | arithmetic (op : Arithmetic) (i j : Int)
  /-- Texts given, and texts of positions, joined. -/
  | concat (parts : List (String ⊕ Int))
  | branch (i : Int) (yes no : List Op)
  | loop (n : Nat) (body : List Op)
  | exceptionOf (i : Int)
  | query (q : Query)
  | host (op : HostOp)

/-- An operation that needs the session of the machine. -/
inductive HostOp where
  | pushHost (v : HostLiteral)
  | pushType (className : String)
  | toHost (i : Int)
  | save (name : String) (i : Int)
  | dropVariable (name : String)
  | checkType (i : Int) (type : HostType)
  | extract (i : Int) (type : HostType)
  | asType (i : Int) (type : HostType)
  | convertAll (i : Int) (types : List String)
  | tableToArray (i : Int) (element : HostType)
  | hostObject (i : Int)
  | isInstance (i : Int) (type : HostType)
  | collectReleased
  | exposedCount
  | registryConsistent
  | pendingEvents
  | matchCall (params : List ParamSpec) (ret : HostType) (first : Int)
      (again : Option (List Literal))
  | resolve (candidates : List (List ParamSpec)) (first : Int)

/-- A formal parameter as a program writes it. -/
inductive ParamSpec where
  | mk (type : HostType) (mode : ParamMode) (default : Option HostLiteral) (variadic : Bool)

/-- A statement of a host body. -/
inductive Stmt where
  | return (e : Expr)
  | setSlot (name : String) (e : Expr)
  | setArgument (i : Nat) (e : Expr)
  | setItem (array : Expr) (i : Int) (e : Expr)
  | throw (spec : ExceptionSpec)
  | traceArguments
  | branch (condition : Expr) (yes no : List Stmt)
  /-- Calls the handlers of an event of the target. -/
  | fire (event : String) (arguments : List Expr)
  /-- Runs stack operations in the running frame. -/
  | machine (ops : List Op)

/-- An expression of a host body. -/
inductive Expr where
  | literal (v : HostLiteral)
  | argument (i : Nat)
  | slot (name : String)
  | target
  | className
  | targetClass
  /-- A new object of the running class with a bag of slots. -/
  | new (slots : List (String × Expr))
  | array (element : HostType) (items : List Expr)
  | length (e : Expr)
  | sum (e : Expr)
  | add (a b : Expr)
  /-- Calls a delegate; gives an argument after the call instead of the result if asked to. -/
  | invoke (delegate : Expr) (arguments : List Expr) (out : Option Nat)
  /-- Calls the first method of a name that the object's own class declares. -/
  | callMethod (object : Expr) (name : String) (arguments : List Expr) (out : Option Nat)

end

instance : Inhabited Op := ⟨.newTable⟩
instance : Inhabited HostOp := ⟨.collectReleased⟩
instance : Inhabited Literal := ⟨.nil⟩
instance : Inhabited HostLiteral := ⟨.value .null⟩
instance : Inhabited Expr := ⟨.target⟩
instance : Inhabited Stmt := ⟨.traceArguments⟩

namespace ParamSpec

def type : ParamSpec → HostType
  | mk t _ _ _ => t

def mode : ParamSpec → ParamMode
  | mk _ m _ _ => m

def default : ParamSpec → Option HostLiteral
  | mk _ _ d _ => d

def variadic : ParamSpec → Bool
  | mk _ _ _ v => v

end ParamSpec

end ScriptBridge
