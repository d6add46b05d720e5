import ScriptBridge.Text.Blank

/-!
# Types of the host

A host type has a canonical name, and `HostType.parse` reads every text as some type: suffixes
`[]` and `?` make arrays and nullable types, a few names are reserved, and any other name is the
name of a class.
-/

namespace ScriptBridge

/-- The integer kinds of the host. -/
inductive IntegerKind where
  | i8 | u8 | i16 | u16 | i32 | u32 | i64 | u64
deriving DecidableEq, Repr

namespace IntegerKind

def name : IntegerKind → String
  | i8 => "i8" | u8 => "u8" | i16 => "i16" | u16 => "u16"
  | i32 => "i32" | u32 => "u32" | i64 => "i64" | u64 => "u64"

def bits : IntegerKind → Nat
  | i8 | u8 => 8
  | i16 | u16 => 16
  | i32 | u32 => 32
  | i64 | u64 => 64

def isSigned : IntegerKind → Bool
  | i8 | i16 | i32 | i64 => true
  | u8 | u16 | u32 | u64 => false

/-- How many integers a kind has. -/
def count (k : IntegerKind) : Nat := Nat.pow 2 k.bits

/-- The least integer of a kind. -/
def lo (k : IntegerKind) : Int := if k.isSigned then -(k.count / 2 : Nat) else 0

/-- The greatest integer of a kind. -/
def hi (k : IntegerKind) : Int := k.lo + k.count - 1

def contains (k : IntegerKind) (n : Int) : Bool := k.lo ≤ n && n ≤ k.hi

/-- The integer of a kind that agrees with `n` modulo the kind's width. -/
def wrap (k : IntegerKind) (n : Int) : Int :=
  if k.isSigned then n.bmod k.count else n.emod k.count

def all : List IntegerKind := [i8, u8, i16, u16, i32, u32, i64, u64]

end IntegerKind

/-- The kinds of values of the machine that the host holds by a handle. -/
inductive HandleKind where
  | table | function | userdata
deriving DecidableEq, Repr

namespace HandleKind

def name : HandleKind → String
  | table => "table" | function => "function" | userdata => "userdata"

end HandleKind

inductive HostType where
  /-- Accepts every value by the general conversion. -/
  | any
  | bool
  | int (kind : IntegerKind)
  | f32
  | f64
  | char
  | text
  /-- Also accepts null. -/
  | nullable (inner : HostType)
  | array (element : HostType)
  /-- A class, interface, delegate or struct, by its full name. -/
  | named (name : String)
  | handle (kind : HandleKind)
  /-- No value; only a return type. -/
  | void
deriving DecidableEq, Inhabited, Repr

namespace HostType

/-- The canonical name. -/
def name : HostType → String
  | any => "any"
  | bool => "bool"
  | int k => k.name
  | f32 => "f32"
  | f64 => "f64"
  | char => "char"
  | text => "string"
  | nullable t => t.name ++ "?"
  | array t => t.name ++ "[]"
  | named n => n
  | handle k => k.name
  | void => "void"

/-- The reserved names. -/
def reserved : List HostType :=
  [any, bool, f32, f64, char, text, void, handle .table, handle .function, handle .userdata]
    ++ IntegerKind.all.map int

/-- The type of a name without suffixes. -/
def ofName (n : String) : HostType := (reserved.find? (·.name == n)).getD (named n)

/-- Reads a name from its end: suffixes first, blanks between them skipped. -/
def ofReversed : List Char → HostType
  | ']' :: '[' :: rest => array (ofReversed rest)
  | '?' :: rest => nullable (ofReversed rest)
  | c :: rest =>
    if Text.isBlank c then ofReversed rest else ofName (String.ofList (c :: rest).reverse)
  | [] => ofName ""

/-- The type a text names; blanks around it and before a suffix do not count. -/
def parse (s : String) : HostType := ofReversed (s.toList.dropWhile Text.isBlank).reverse

/-- The type without one nullable layer. -/
def unwrapNullable : HostType → HostType
  | nullable t => t
  | t => t

end HostType

end ScriptBridge
