import ScriptBridge.Bridge.Storage

/-!
# Descriptions

Reports of values as they are now: host values and objects to a depth, values of the machine, and
exceptions with the name they are known by.
-/

namespace ScriptBridge

/-! ## Host values -/

/-- The description of a value that is no object. -/
def HostValue.plainView : HostValue → HostView
  | null => .null
  | bool b => .bool b
  | int k n => .int k n
  | f32 n => .f32 n
  | f64 n => .f64 n
  | char c => .char c
  | text s => .text s
  | object _ => .null
  | handle k _ => .handle k

/-- The description of an object, given how its items are described. -/
def World.objectViewWith (w : World) (items : Array HostValue → ItemsView) (ref : ObjectRef) :
    ObjectView :=
  match w.objects.get? ref.index with
  | some o => .mk o.cls.name o.text ((o.items?.map items).getD .none)
  | none => default

/-- The description of a value; the items of arrays are shown down to a depth. -/
def World.hostView (w : World) : (depth : Nat) → HostValue → HostView
  | 0, .object o => .object (w.objectViewWith (fun items => .count items.size) o)
  | depth + 1, .object o =>
    .object (w.objectViewWith (fun items => .all (items.toList.map (w.hostView depth))) o)
  | _, v => v.plainView

def World.objectView (w : World) (depth : Nat) (o : ObjectRef) : ObjectView :=
  match w.hostView depth (.object o) with
  | .object view => view
  | _ => default

/-- The depth of descriptions unless another one is asked for. -/
def defaultDepth : Nat := 3

def showHost (v : HostValue) (depth : Nat := defaultDepth) : Action HostView := do
  return (← get).hostView depth v

def showObject (o : ObjectRef) (depth : Nat) : Action ObjectView := do
  return (← get).objectView depth o

/-! ## Exceptions -/

/-- The least name an exception instance is known by. -/
def World.nameOf? (w : World) (e : Exception) : Option String :=
  let names := (w.named.filter (·.2.id == e.id)).map (·.1)
  names.foldl (fun best n => match best with
    | some b => if n < b then some n else some b
    | none => some n) none

def World.exceptionView (w : World) (e : Exception) : ExceptionView := ⟨e.cause, w.nameOf? e⟩

def showException (e : Exception) : Action ExceptionView := do return (← get).exceptionView e

/-! ## Values of the machine -/

/-- The object a proxy stands for, as seen through the first slot of the frame that holds it. -/
def World.proxyView (w : World) (u : UserdataRef) : Option ObjectView := do
  let _ ← w.session?
  let m := w.machine
  if (m.stack.toList.drop m.base).contains (.userdata u) then
    return w.objectView 1 (← w.objectBehind? (.userdata u))
  else none

/-- The description of a value without what is inside it. -/
def World.valueView (w : World) : Value → ValueView
  | .nil => .nil
  | .boolean b => .boolean b
  | .number n => .number n
  | .text s => .text s
  | .table _ => .table none
  | .function f => .function ((w.functions.get? f.index).map (·.label) |>.getD .none)
  | .userdata u =>
    match w.userdata.get? u.index with
    | some ⟨.integer n, _, _, _⟩ => .payload n
    | some ⟨.error e place, _, _, _⟩ => .error (place ++ e.text) place (w.exceptionView e)
    | _ => .proxy (w.proxyView u)

/-- The entries of a table that have a value, in order. -/
def World.liveEntries (w : World) (t : TableRef) : List (Value × Value) :=
  (w.table t).entries.filterMap fun e =>
    let v := e.slot.read w.isLive
    if v.isNil then none else some (e.written, v)

/-- The description of a value with the entries of tables down to a depth. -/
def World.deepView (w : World) : (depth : Nat) → Value → ValueView
  | depth + 1, .table t =>
    .table (some ((w.liveEntries t).map fun (k, v) => (w.valueView k, w.deepView depth v)))
  | _, v => w.valueView v

def showValue (v : Value) : Action ValueView := do return (← get).valueView v

/-! ## Calls -/

def Conversion.view : Conversion → ConversionView
  | scalar t => .scalar t.name
  | any => .any
  | handle k => .handle k
  | object t => .object t.name
  | arrayTable e => .arrayTable e.name
  | delegate c => .delegate c.name
  | interface c => .interface c.name

/-- Shows converted arguments and lets go of them. -/
def showReplay (r : Except ReplayError (List HostValue)) : Action ReplayView := do
  match r with
  | .ok vs =>
    let views ← vs.mapM fun v => showHost v
    release (vs.flatMap HostValue.refs)
    return .ok views
  | .error e => return .error e

end ScriptBridge
