import ScriptBridge.Host.Type
import ScriptBridge.Number.Binary64

/-!
# Values of the host

Scalars are values in themselves. Objects are references into the heap, compared by identity.
Tables, functions and userdata of a machine are held through handles.
-/

namespace ScriptBridge

/-- An object of the host in the heap. -/
@[ext]
structure ObjectRef where
  index : Nat
deriving DecidableEq, Inhabited, Repr

/-- A handle of the host on a value of a machine. -/
@[ext]
structure HandleRef where
  index : Nat
deriving DecidableEq, Inhabited, Repr

/-- A dispatcher of the heap. -/
structure DispatcherRef where
  index : Nat
deriving DecidableEq, Inhabited, Repr

inductive HostValue where
  | null
  | bool (b : Bool)
  | int (kind : IntegerKind) (n : Int)
  | f32 (n : Number)
  | f64 (n : Number)
  | char (c : Char)
  | text (s : String)
  | object (o : ObjectRef)
  | handle (kind : HandleKind) (h : HandleRef)
deriving DecidableEq, Inhabited, Repr

namespace HostValue

def isNull (v : HostValue) : Bool := v == null

def asBool? : HostValue → Option Bool
  | bool b => some b
  | _ => none

/-- The integer of an integer scalar or the code of a character, if 64 signed bits hold it. -/
def asInt64? : HostValue → Option Int
  | int _ n => if n ≤ IntegerKind.i64.hi then some n else none
  | char c => some c.toNat
  | _ => none

def asInt32? (v : HostValue) : Option Int := v.asInt64?.filter IntegerKind.i32.contains

/-- The number of a numeric scalar, rounded to the nearest. -/
def asNumber? : HostValue → Option Number
  | f32 n | f64 n => some n
  | int _ n => some (Number.ofInt n)
  | char c => some (Number.ofNat c.toNat)
  | _ => none

def asText? : HostValue → Option String
  | text s => some s
  | _ => none

def asObject? : HostValue → Option ObjectRef
  | object o => some o
  | _ => none

/-- The word for a kind of value in messages. -/
def kindName : HostValue → String
  | null => "null"
  | bool _ => "bool"
  | int k _ => k.name
  | f32 _ => "f32"
  | f64 _ => "f64"
  | char _ => "char"
  | text _ => "string"
  | object _ => "object"
  | handle k _ => k.name

/-- Equality as the host sees it: floating numbers by value, objects by identity, and handles by
what `target` says they stand for. -/
def same {α : Type} [DecidableEq α] (target : HandleRef → α) : HostValue → HostValue → Bool
  | f32 a, f32 b | f64 a, f64 b => a.eq b
  | handle k a, handle l b => k == l && target a == target b
  | a, b => a == b

end HostValue

/-- The value of an unset slot of a type: zero for scalars, null for all else. -/
def HostType.defaultValue : HostType → HostValue
  | .bool => .bool false
  | .int k => .int k 0
  | .f32 => .f32 Number.zero
  | .f64 => .f64 Number.zero
  | .char => .char (Char.ofNat 0)
  | _ => .null

end ScriptBridge
