import ScriptBridge.Number.Decimal
import ScriptBridge.Number.Numeral

/-!
# Values of the machine

Strings and numbers are values in themselves; tables, functions and userdata are named by
references into the heap, and two such values are equal exactly when the references are.
-/

namespace ScriptBridge

/-! ## References -/

/-- A table of the heap. -/
@[ext]
structure TableRef where
  index : Nat
deriving DecidableEq, Inhabited, Repr

/-- A function of the heap. -/
@[ext]
structure FunctionRef where
  index : Nat
deriving DecidableEq, Inhabited, Repr

/-- A userdata of the heap. -/
@[ext]
structure UserdataRef where
  index : Nat
deriving DecidableEq, Inhabited, Repr

/-! ## Values and their types -/

inductive Value where
  | nil
  | boolean (b : Bool)
  | number (n : Number)
  | text (s : String)
  | table (t : TableRef)
  | function (f : FunctionRef)
  | userdata (u : UserdataRef)
deriving DecidableEq, Inhabited, Repr

/-- The type of a stack slot; `none` is a slot outside the frame. -/
inductive ValueType where
  | none
  | nil
  | boolean
  | number
  | text
  | table
  | function
  | userdata
deriving DecidableEq, Repr

namespace ValueType

/-- The word for a type in messages. -/
def name : ValueType → String
  | none => "no value"
  | nil => "nil"
  | boolean => "boolean"
  | number => "number"
  | text => "string"
  | table => "table"
  | function => "function"
  | userdata => "userdata"

/-- Every type, the absent slot first. -/
def all : List ValueType := [none, nil, boolean, number, text, table, function, userdata]

end ValueType

namespace Value

def type : Value → ValueType
  | nil => .nil
  | boolean _ => .boolean
  | number _ => .number
  | text _ => .text
  | table _ => .table
  | function _ => .function
  | userdata _ => .userdata

def typeName (v : Value) : String := v.type.name

def isNil (v : Value) : Bool := v == nil

/-- Everything but nil and false counts as true. -/
def isTruthy : Value → Bool
  | nil => false
  | boolean b => b
  | _ => true

def asText? : Value → Option String
  | text s => some s
  | _ => none

/-- The number of a value; a numeral counts as its number. -/
def toNumber? : Value → Option Number
  | number n => some n
  | text s => Numeral.number? s
  | _ => none

/-- The text of a value; a number counts as its decimal text. -/
def toText? : Value → Option String
  | text s => some s
  | number n => some n.format
  | _ => none

/-- Equality without metamethods: numbers by value, so a NaN differs from itself, and tables,
functions and userdata by identity. -/
def rawEqual : Value → Value → Bool
  | number a, number b => a.eq b
  | a, b => a == b

/-- The text that names a reference: its type and an address, a distinct one for each reference. -/
def referenceText (type : ValueType) (kind index : Nat) : String :=
  type.name ++ ": 0x" ++ String.ofList (Nat.toDigits 16 (0x560000000000 + 64 * index + 16 * kind))

/-- The text of a value without metamethods. -/
def display : Value → String
  | nil => "nil"
  | boolean b => if b then "true" else "false"
  | number n => n.format
  | text s => s
  | table t => referenceText .table 0 t.index
  | function f => referenceText .function 1 f.index
  | userdata u => referenceText .userdata 2 u.index

end Value

end ScriptBridge
