import ScriptBridge.Exception
import ScriptBridge.Script.Program

/-!
# Reports

What operations answer: descriptions of values as they are when the operation runs, so that a
report stays true whatever happens later.
-/

namespace ScriptBridge

/-! ## Values of the host -/

mutual

inductive HostView where
  | null
  | bool (b : Bool)
  | int (kind : IntegerKind) (n : Int)
  | f32 (n : Number)
  | f64 (n : Number)
  | char (c : Char)
  | text (s : String)
  | object (o : ObjectView)
  | handle (kind : HandleKind)

inductive ObjectView where
  | mk (className text : String) (items : ItemsView)

/-- The items of an array, or only their number where the description stops. -/
inductive ItemsView where
  | none
  | count (n : Nat)
  | all (items : List HostView)

end

instance : Inhabited HostView := ⟨.null⟩
instance : Inhabited ObjectView := ⟨.mk "" "" .none⟩

/-- An exception, with the name of the named exception it is an instance of. -/
structure ExceptionView where
  cause : Cause
  same : Option String
deriving Inhabited

/-! ## Values of the machine -/

inductive ValueView where
  | nil
  | boolean (b : Bool)
  | number (n : Number)
  | text (s : String)
  /-- A table, with its entries unless the description stops here. -/
  | table (entries : Option (List (ValueView × ValueView)))
  | function (label : Label)
  | payload (n : Int)
  | error (text location : String) (exception : ExceptionView)
  | proxy (object : Option ObjectView)
deriving Inhabited

structure UserdataView where
  payload : Option Int
  finalized : Bool
  hasMetatable : Bool

/-! ## Calls -/

/-- How an argument is read, with the name of the type or class it is read as. -/
inductive ConversionView where
  | scalar (type : String)
  | any
  | handle (kind : HandleKind)
  | object (type : String)
  | arrayTable (element : String)
  | delegate (className : String)
  | interface (className : String)

/-- Why a plan gives no arguments. -/
inductive ReplayError where
  /-- The number of arguments is another one than the plan's. -/
  | argumentCount
  /-- The argument at this position, counted from one, no longer converts. -/
  | invalid (position : Nat)
deriving DecidableEq, Repr

abbrev ReplayView := Except ReplayError (List HostView)

structure PlanView where
  method : String
  argumentCount : Nat
  outs : List Nat
  isVoid : Bool
  arguments : ReplayView
  oneMore : ReplayView
  again : Option ReplayView

/-- How a protected call ended. -/
inductive Status where
  | ok
  | runtimeError
  | stackOverflow
deriving DecidableEq, Repr

inductive Report where
  | bool (b : Bool)
  | boolOrNothing (b : Option Bool)
  | int (n : Int)
  | number (n : Option Number)
  | text (s : Option String)
  /-- The id of an exposed object. -/
  | id (n : Option Nat)
  | value (v : ValueView)
  | userdata (u : Option UserdataView)
  | status (s : Status)
  | appData (s : Option String)
  | exception (e : ExceptionView)
  | host (v : HostView)
  | hostOrNothing (v : Option HostView)
  | object (o : Option ObjectView)
  | arguments (vs : List HostView)
  | items (vs : Option (List HostView))
  | conversion (c : Option ConversionView)
  | extraction (c : ConversionView) (v : Option HostView)
  | conversions (vs : List (String × Option HostView))
  | plan (p : Option PlanView)
  | resolved (r : Option (Nat × List HostView))

end ScriptBridge
