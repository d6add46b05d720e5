/-!
# TOML documents

A document is a tree of tables. Tables are opened by headers or by dotted keys, and the rules
about opening one twice depend on which of the two made it.
-/

namespace ScriptBridge.Toml

/-- A value on the right of an equals sign. Numbers with a fraction and dates are only told apart
from other values; nothing reads them. -/
inductive Value where
  | text (s : String)
  | integer (n : Int)
  | float
  | boolean (b : Bool)
  | date
  | array (items : List Value)
  /-- A table within a line; `dotted` when the dots of a key made it, not braces of its own. -/
  | inlineTable (dotted : Bool) (entries : List (String × Value))
deriving Inhabited

/-- How a table came to be: named by its own header, by the header of a table inside it, or by
the dots of a key. -/
inductive Form where
  | explicit
  | implicit
  | dotted
deriving DecidableEq

inductive Item where
  | value (v : Value)
  | table (form : Form) (entries : List (String × Item))
  /-- An array of tables, the last one first. -/
  | tables (elements : List (List (String × Item)))
deriving Inhabited

abbrev Entries := List (String × Item)

/-- Puts an item under a name, in place of what was there. -/
def put (name : String) (item : Item) : Entries → Entries
  | [] => [(name, item)]
  | (n, i) :: rest => if n == name then (n, item) :: rest else (n, i) :: put name item rest

/-- Changes the table at the end of a header's path; tables on the way are made as needed, and an
array of tables stands for its last one. -/
def underHeader (change : Entries → Option Entries) : List String → Entries → Option Entries
  | [], entries => change entries
  | name :: path, entries =>
    match entries.lookup name with
    | none => do
      let inner ← underHeader change path []
      return put name (.table .implicit inner) entries
    | some (.table form inner) => do
      let inner ← underHeader change path inner
      return put name (.table form inner) entries
    | some (.tables (inner :: earlier)) => do
      let inner ← underHeader change path inner
      return put name (.tables (inner :: earlier)) entries
    | some _ => none

/-- Opens a table by its own header. Only a table that is so far implicit may exist. -/
def openTable (name : String) (entries : Entries) : Option Entries :=
  match entries.lookup name with
  | none => some (put name (.table .explicit []) entries)
  | some (.table .implicit inner) => some (put name (.table .explicit inner) entries)
  | some _ => none

/-- Starts the next table of an array of tables. -/
def openElement (name : String) (entries : Entries) : Option Entries :=
  match entries.lookup name with
  | none => some (put name (.tables [[]]) entries)
  | some (.tables elements) => some (put name (.tables ([] :: elements)) entries)
  | some _ => none

/-- Adds a value under a key. The names before the last one are tables made by dots. On the way to
the last of them, tables that are so far implicit may lie, and an array of tables stands for its
last one. -/
def addValue (v : Value) : List String → Entries → Option Entries
  | [], _ => none
  | [name], entries =>
    match entries.lookup name with
    | none => some (put name (.value v) entries)
    | some _ => none
  | name :: next :: path, entries =>
    match entries.lookup name with
    | none => do
      let inner ← addValue v (next :: path) []
      return put name (.table .dotted inner) entries
    | some (.table form inner) =>
      if form == .dotted || (form == .implicit && !path.isEmpty) then do
        let inner ← addValue v (next :: path) inner
        return put name (.table form inner) entries
      else none
    | some (.tables (inner :: earlier)) =>
      if path.isEmpty then none
      else do
        let inner ← addValue v (next :: path) inner
        return put name (.tables (inner :: earlier)) entries
    | some _ => none

/-- Adds a value under a dotted key of an inline table; its dots lead only through tables that dots
made. -/
def addInline (v : Value) : List String → List (String × Value) → Option (List (String × Value))
  | [], _ => none
  | [name], entries =>
    match entries.lookup name with
    | none => some (entries ++ [(name, v)])
    | some _ => none
  | name :: path, entries =>
    match entries.lookup name with
    | none => do
      let inner ← addInline v path []
      return entries ++ [(name, .inlineTable true inner)]
    | some (.inlineTable true inner) => do
      let inner ← addInline v path inner
      return entries.map fun (n, i) => if n == name then (n, .inlineTable true inner) else (n, i)
    | some _ => none

end ScriptBridge.Toml
