import ScriptBridge.Vm.Value

/-!
# Tables

A table is a finite map in insertion order. Keys that are equal as numbers address one entry, so
integral keys are kept as integers; an entry also keeps the key as it was last written. Under a
metatable with a weak mode the table holds tables and userdata weakly: such an entry stays, but
it reads as nil once its value is gone. Whether a value is still there is the heap's business, so
reading takes the test `live` as a parameter.
-/

namespace ScriptBridge

/-- What identifies an entry. -/
inductive Key where
  | integer (n : Int)
  | fractional (n : Number)
  | text (s : String)
  | boolean (b : Bool)
  | table (t : TableRef)
  | function (f : FunctionRef)
  | userdata (u : UserdataRef)
deriving DecidableEq, Repr

namespace Key

/-- The greatest integer key; `2 ^ 63` itself is brought down to it. -/
def maxInteger : Int := 0x7FFFFFFFFFFFFFFF

def minInteger : Int := -0x8000000000000000

/-- The key of a number: an integer for an integral number in range, and the word otherwise. -/
def ofNumber? (n : Number) : Option Key :=
  if n.isNaN then none
  else
    match n.toInt? with
    | some i =>
      if minInteger ≤ i && i ≤ maxInteger + 1 then some (.integer (min i maxInteger))
      else some (.fractional n)
    | none => some (.fractional n)

/-- The key a value addresses; nil and NaN address nothing. -/
def ofValue? : Value → Option Key
  | .nil => none
  | .boolean b => some (.boolean b)
  | .number n => ofNumber? n
  | .text s => some (.text s)
  | .table t => some (.table t)
  | .function f => some (.function f)
  | .userdata u => some (.userdata u)

end Key

/-- How an entry holds its value. -/
inductive Slot where
  | strong (v : Value)
  | weak (v : Value)
deriving DecidableEq, Repr

namespace Slot

/-- The value of a slot; a weak slot whose value is gone reads as nil. -/
def read (live : Value → Bool) : Slot → Value
  | strong v => v
  | weak v => if live v then v else .nil

/-- What a slot keeps alive. -/
def kept : Slot → List Value
  | strong v => [v]
  | weak _ => []

end Slot

/-- An entry: its identity, the key as last written, and the value. -/
structure Entry where
  key : Key
  written : Value
  slot : Slot
deriving DecidableEq, Repr

/-- Why a table refuses a key. -/
inductive KeyError where
  | nilIndex
  | nanIndex
  | notInTable
deriving DecidableEq, Repr

def KeyError.message : KeyError → String
  | .nilIndex => "table index is nil"
  | .nanIndex => "table index is NaN"
  | .notInTable => "invalid key to 'next'"

structure Table where
  entries : List Entry := []
  metatable : Option TableRef := none
  weakValues : Bool := false
deriving Inhabited, Repr

namespace Table

variable (live : Value → Bool)

/-! ## Reading -/

def find? (t : Table) (k : Key) : Option Entry := t.entries.find? (·.key == k)

/-- The value under an identity; nil when there is none. -/
def getKey (t : Table) (k : Key) : Value :=
  match t.find? k with
  | some e => e.slot.read live
  | none => .nil

def get (t : Table) (key : Value) : Value :=
  match Key.ofValue? key with
  | some k => t.getKey live k
  | none => .nil

def getText (t : Table) (key : String) : Value := t.getKey live (.text key)

def getInt (t : Table) (n : Int) : Value := t.getKey live (.integer n)

/-- Counts up from `n` while the next integer key has a value. -/
def border (t : Table) (n : Nat) : Nat → Nat
  | 0 => n
  | fuel + 1 => if (t.getInt live (n + 1)).isNil then n else border t (n + 1) fuel

/-- The least `n` without a value at `n + 1`. -/
def length (t : Table) : Nat := t.border live 0 t.entries.length

def isEmpty (t : Table) : Bool := t.entries.all fun e => (e.slot.read live).isNil

/-- The first entry of a list that has a value. -/
def firstLive : List Entry → Option (Value × Value)
  | [] => none
  | e :: rest =>
    let v := e.slot.read live
    if v.isNil then firstLive rest else some (e.written, v)

/-- The entry after `key` in insertion order, from the start for nil; entries without a value are
passed over. -/
def next (t : Table) (key : Value) : Except KeyError (Option (Value × Value)) :=
  if key.isNil then .ok (firstLive live t.entries)
  else
    match (Key.ofValue? key).bind fun k => t.entries.findIdx? (·.key == k) with
    | some i => .ok (firstLive live (t.entries.drop (i + 1)))
    | none => .error .notInTable

/-! ## Writing -/

/-- The slot a value is written into; only tables and userdata are held weakly. -/
def slotFor (t : Table) (value : Value) : Slot :=
  match value with
  | .table _ | .userdata _ => if t.weakValues then .weak value else .strong value
  | _ => .strong value

/-- Replaces the entry of the same identity in place, or appends. -/
def putEntry (e : Entry) : List Entry → List Entry
  | [] => [e]
  | e' :: rest => if e'.key == e.key then e :: rest else e' :: putEntry e rest

/-- What the entry under an identity holds: the key as written, then the value. -/
def heldBy (t : Table) (k : Key) : List Value :=
  match t.find? k with
  | some e => e.written :: e.slot.kept
  | none => []

/-- Writes under an identity; nil removes the entry. Also gives what the write let go of. -/
def setKey (t : Table) (k : Key) (key value : Value) : Table × List Value :=
  let entries :=
    if value.isNil then t.entries.eraseP (·.key == k)
    else putEntry ⟨k, key, t.slotFor value⟩ t.entries
  ({ t with entries }, t.heldBy k)

/-- Writes an entry; a nil or NaN key is refused. -/
def set (t : Table) (key value : Value) : Except KeyError (Table × List Value) :=
  match Key.ofValue? key with
  | some k => .ok (t.setKey k key value)
  | none => .error (if key.isNil then .nilIndex else .nanIndex)

def setText (t : Table) (key : String) (value : Value) : Table × List Value :=
  t.setKey (.text key) (.text key) value

/-- Writes under an integer, taken as the nearest number. -/
def setInt (t : Table) (n : Int) (value : Value) : Table × List Value :=
  let key := Value.number (Number.ofInt n)
  match Key.ofValue? key with
  | some k => t.setKey k key value
  | none => (t, [])

/-! ## Metatable -/

/-- A mode is weak when it is a text with the letter `v`. -/
def isWeakMode : Value → Bool
  | .text s => s.toList.contains 'v'
  | _ => false

/-- Puts another metatable in place; `mode` is what it has under `__mode`. -/
def setMetatable (t : Table) (metatable : Option TableRef) (mode : Value) : Table :=
  { t with metatable, weakValues := isWeakMode mode }

end Table

end ScriptBridge
