import ScriptBridge.Bridge.Identity

/-!
# Reading values as host types

`checkType` decides whether a value can be passed where a type is expected and gives the
conversion that reads it; `Conversion.extract` runs a conversion; `asType` does both. Nil stands
also for an argument that is not there. It matches every type but the plain scalars and `void`,
and gives null.
-/

namespace ScriptBridge

/-! ## Scalars -/

/-- A number as an integer of a kind: it must be integral and in range. -/
def integerOf? (n : Number) (kind : IntegerKind) : Option Int := n.toInt?.filter kind.contains

/-- A character from a text of one character or from a code point. -/
def charOf? : Value → Option Char
  | .text s =>
    match s.toList with
    | [c] => some c
    | _ => none
  | .number n => do
    let i ← integerOf? n .u32
    if i.toNat.isValidChar then some (Char.ofNat i.toNat) else none
  | _ => none

/-- A value as a scalar type. Truth values are taken as they are, numbers also from numerals, and
texts also from numbers. -/
def scalarOf? (v : Value) : HostType → Option HostValue
  | .bool =>
    match v with
    | .boolean b => some (.bool b)
    | _ => none
  | .f64 => v.toNumber?.map .f64
  | .f32 => v.toNumber?.map fun n => .f32 n.toSingle
  | .text => v.toText?.map .text
  | .char => (charOf? v).map .char
  | .int kind => do return .int kind (← integerOf? (← v.toNumber?) kind)
  | _ => none

/-- The conversion of a type without adapters. -/
def HostType.conversion (t : HostType) : Conversion :=
  match t.unwrapNullable with
  | .any => .any
  | .handle kind => .handle kind
  | .named n => .object (.named n)
  | .array e => .object (.array e)
  | _ => .scalar t

/-! ## Objects -/

/-- Whether an object can be passed as a type. -/
def Catalog.fits (c : Catalog) (o : HostObject) (t : HostType) : Bool :=
  match t.unwrapNullable with
  | .any => true
  | .named n => c.isAssignable n o.cls
  | .array e => o.cls.name == (HostType.array e).name
  | _ => false

/-- The object behind a value, if it fits a type. -/
def World.fittingObject? (w : World) (v : Value) (t : HostType) : Option ObjectRef := do
  let ref ← w.objectBehind? v
  let o ← w.objects.get? ref.index
  let s ← w.machine.session
  if s.catalog.fits o t then some ref else none

def fittingObject? (v : Value) (t : HostType) : Action (Option ObjectRef) := do
  return (← get).fittingObject? v t

/-- A new array. Its class joins the catalog if it is new. -/
def newArray (element : HostType) (items : Array HostValue) : Action ObjectRef := do
  let (cls, catalog) := (← readSession).catalog.arrayClass element
  modifySession fun s => { s with catalog }
  newObject cls (.array element items)

/-! ## General conversion -/

def HandleKind.ofValue? : Value → Option HandleKind
  | .table _ => some .table
  | .function _ => some .function
  | .userdata _ => some .userdata
  | _ => none

/-- The host value of a value by itself: a proxy gives its object, and what has no counterpart on
the host is held by a handle. -/
def toHost (v : Value) : Action HostValue := do
  match v with
  | .nil => return .null
  | .boolean b => return .bool b
  | .number n => return .f64 n
  | .text s => return .text s
  | .table _ => return .handle .table (← toHandle v)
  | .function _ => return .handle .function (← toHandle v)
  | .userdata _ =>
    let w ← get
    match w.proxyId? v with
    | some id =>
      return match w.machine.session.bind (·.registry.resolve? id) with
        | some o => .object o
        | none => .null
    | none => return .handle .userdata (← toHandle v)

/-! ## Adapters -/

/-- A delegate of a class that calls a script function. -/
def makeDelegate (cls : Class) (function : HandleRef) : Action (Except Cause ObjectRef) := do
  match cls.invokeMethod? with
  | some signature => return .ok (← newObject cls (.delegate (.script function signature)))
  | none =>
    discard [.handle function]
    return .error (.invalidTarget ("'" ++ cls.name ++ "' is not a delegate type"))

/-- An object of an interface that forwards to a table. -/
def makeInterface (cls : Class) (table : HandleRef) : Action (Except Cause ObjectRef) := do
  if cls.kind == .interface then return .ok (← newObject cls (.scriptTable table))
  else
    discard [.handle table]
    return .error (.invalidTarget ("'" ++ cls.name ++ "' is not an interface"))

/-- A delegate as the session's policy has it. -/
def delegateFor (cls : Class) (function : HandleRef) : Action (Except Cause ObjectRef) := do
  if (← readSession).adapters == .refuse then
    discard [.handle function]
    return .error (.invalidTarget ("refused delegate " ++ cls.name))
  makeDelegate cls function

/-- An interface as the session's policy has it. -/
def interfaceFor (cls : Class) (table : HandleRef) : Action (Except Cause ObjectRef) := do
  if (← readSession).adapters == .refuse then
    discard [.handle table]
    return .error (.invalidTarget ("refused interface " ++ cls.name))
  makeInterface cls table

def adapted (result : Except Cause ObjectRef) : Option HostValue :=
  match result with
  | .ok o => some (.object o)
  | .error _ => none

/-! ## Matching and reading, given how tables are read -/

/-- Reads the items of a table as host values. -/
abbrev ItemReader := Value → Action (Option (List HostValue))

/-- Converts the item of a table at a position, which is on the stack meanwhile. -/
def convertItem (convert : Value → Action (Option HostValue)) (t : TableRef) (position : Int) :
    Action (Option HostValue) := do
  push (← rawGetInt t position)
  let item ← convert (← valueAt (-1))
  discard (← popValue).refs
  return item

/-- Converts the `n` items of a table from a position on, one after the other; the first that does
not convert ends it, and what was converted is let go of. Each item is read when its turn comes,
since a conversion may write to the registry table, and that may be the table at hand. -/
def convertItems (convert : Value → Action (Option HostValue)) (t : TableRef) :
    (n : Nat) → (position : Int) → List HostValue → Action (Option (List HostValue))
  | 0, _, done => return some done
  | n + 1, position, done => do
    match ← convertItem convert t position with
    | some item => convertItems convert t n (position + 1) (done ++ [item])
    | none =>
      release (done.flatMap HostValue.refs)
      return none

/-- Reads a table item by item, from 1 up to its length; other values have no items. -/
def readItems (convert : Value → Action (Option HostValue)) : ItemReader := fun v => do
  match v with
  | .table t => convertItems convert t (← rawLength v) 1 []
  | _ => return none

/-- Whether the items of a table convert; what they convert to is let go of. -/
def itemsConvert (items : ItemReader) (v : Value) : Action Bool := do
  match ← items v with
  | some converted =>
    release (converted.flatMap HostValue.refs)
    return true
  | none => return false

/-- The conversion of an object that fits. -/
def matchObject (t : HostType) (v : Value) : Action (Option Conversion) := do
  return (← fittingObject? v t).map fun _ => t.conversion

/-- The conversion of a value that is not nil to an array type. -/
def matchArray (items : ItemReader) (element : HostType) (v : Value) :
    Action (Option Conversion) := do
  if v.type == .table && (← objectBehind? v).isNone then
    return if ← itemsConvert items v then some (.arrayTable element) else none
  else matchObject (.array element) v

/-- The conversion of a value that is not nil to a class. -/
def matchClass (t : HostType) (name : String) (v : Value) : Action (Option Conversion) := do
  match (← readSession).catalog.find? name, v with
  | some cls, .function _ =>
    if cls.kind == .delegate then return some (.delegate cls) else matchObject t v
  | some cls, .table _ =>
    if cls.kind == .interface then
      return some (if (← fittingObject? v t).isSome then t.conversion else .interface cls)
    else matchObject t v
  | _, _ => matchObject t v

/-- The conversion of a value to a type, if they match; `items` reads a table as the element type
of the type. -/
def matchType (items : ItemReader) (t : HostType) (v : Value) : Action (Option Conversion) := do
  if v.isNil && t.unwrapNullable != t then return some t.conversion
  match t.unwrapNullable with
  | .any => return some .any
  | .void => return none
  | .handle kind =>
    return if v.isNil || HandleKind.ofValue? v == some kind then some (.handle kind) else none
  | .array element =>
    if v.isNil then return some t.conversion else matchArray items element v
  | .named name => if v.isNil then return some t.conversion else matchClass t name v
  | scalar => return (scalarOf? v scalar).map fun _ => t.conversion

/-- Reads a value; nothing means that the value does not fit the conversion. -/
def readAs (items : ItemReader) (c : Conversion) (v : Value) : Action (Option HostValue) := do
  match c with
  | .scalar t =>
    if v.isNil && t.unwrapNullable != t then return some .null
    else return scalarOf? v t.unwrapNullable
  | .any => return some (← toHost v)
  | _ =>
    if v.isNil then return some .null
    match c, v with
    | .handle kind, _ =>
      if HandleKind.ofValue? v == some kind then return some (.handle kind (← toHandle v))
      else return none
    | .object t, _ => return (← fittingObject? v t).map .object
    | .arrayTable element, _ =>
      match ← items v with
      | some converted => return some (.object (← newArray element converted.toArray))
      | none => return none
    | .delegate cls, .function _ => return adapted (← delegateFor cls (← toHandle v))
    | .interface cls, .table _ => return adapted (← interfaceFor cls (← toHandle v))
    | _, _ => return none

/-! ## Reading as a type -/

/-- Matches a value and reads it at once. -/
def convertWith (items : ItemReader) (t : HostType) (v : Value) : Action (Option HostValue) := do
  match ← matchType items t v with
  | some c => readAs items c v
  | none => return none

/-- No table is a sequence of anything. -/
def noItems : ItemReader := fun _ => return none

/-- The value read as a type, if it matches. -/
def asType : HostType → Value → Action (Option HostValue)
  | .array e, v => convertWith (readItems (asType e)) (.array e) v
  | .nullable (.array e), v => convertWith (readItems (asType e)) (.nullable (.array e)) v
  | t, v => convertWith noItems t v

/-- A table read item by item as an element type. -/
def tableToArray (element : HostType) : ItemReader := readItems (asType element)

/-- How tables are read for an array type. -/
def itemsFor (t : HostType) : ItemReader :=
  match t.unwrapNullable with
  | .array e => tableToArray e
  | _ => noItems

/-- The conversion of a value to a type, if they match. -/
def checkType (t : HostType) (v : Value) : Action (Option Conversion) := matchType (itemsFor t) t v

/-- Reads a value by a conversion. -/
def Conversion.extract (c : Conversion) (v : Value) : Action (Option HostValue) :=
  match c with
  | arrayTable e => readAs (tableToArray e) c v
  | _ => readAs noItems c v

end ScriptBridge
