import ScriptBridge.Toml.Reader

/-!
# Session options

The options of a session, with their defaults, and how they are read from the `[bridge]` table of
a TOML document.
-/

namespace ScriptBridge

structure Options where
  /-- Objects of classes in these namespaces reach scripts as texts only. -/
  blacklistedNamespaces : List String := ["moonlink.reflect"]
  /-- An instance look-up that finds nothing goes on among static members. -/
  implicitStatic : Bool := false
  /-- The helper functions of scripts are installed. -/
  registerGlobals : Bool := true
  /-- Limit of nested calls. -/
  maxCallDepth : Nat := 200
  /-- The longest array a script may create by indexing a type. -/
  maxArrayLength : Nat := 0x1000000
deriving DecidableEq, Inhabited, Repr

namespace Options

/-- A namespace is blacklisted when it is an entry or continues one behind a point. -/
def isBlacklisted (o : Options) (namespaceName : String) : Bool :=
  o.blacklistedNamespaces.any fun entry =>
    namespaceName == entry || (entry.toList ++ ['.']).isPrefixOf namespaceName.toList

/-! ## Reading from TOML -/

def texts? : Toml.Value → Option (List String)
  | .array items => items.mapM fun
    | .text s => some s
    | _ => none
  | _ => none

def boolean? : Toml.Value → Option Bool
  | .boolean b => some b
  | _ => none

def natural? : Toml.Value → Option Nat
  | .integer n => if 0 ≤ n then some n.toNat else none
  | _ => none

/-- The names of the options, in the order of an array that gives them by position. -/
def names : List String :=
  ["blacklisted_namespaces", "implicit_static", "register_globals", "max_call_depth",
    "max_array_length"]

/-- Sets one option by its name; a value of the wrong kind is refused, an unknown name ignored. -/
def set? (o : Options) (name : String) (v : Toml.Value) : Option Options :=
  match name with
  | "blacklisted_namespaces" => (texts? v).map fun x => { o with blacklistedNamespaces := x }
  | "implicit_static" => (boolean? v).map fun x => { o with implicitStatic := x }
  | "register_globals" => (boolean? v).map fun x => { o with registerGlobals := x }
  | "max_call_depth" => (natural? v).map fun x => { o with maxCallDepth := x }
  | "max_array_length" => (natural? v).map fun x => { o with maxArrayLength := x }
  | _ => some o

/-- Sets options from the entries of a table. An item that is no plain value fits no option. -/
def setAll? (o : Options) (entries : Toml.Entries) : Option Options :=
  entries.foldlM (fun o (name, item) =>
    match item with
    | .value v => o.set? name v
    | _ => if names.contains name then none else some o) o

/-- The options of a document's `bridge` entry; without one, the defaults. An array gives the
options by position, and a date or time gives none of them. -/
def ofDocument? (document : Toml.Entries) : Option Options :=
  match document.lookup "bridge" with
  | none => some {}
  | some (.table _ entries) => setAll? {} entries
  | some (.value .date) => some {}
  | some (.value (.inlineTable _ entries)) => setAll? {} (entries.map fun (n, v) => (n, .value v))
  | some (.value (.array items)) =>
    setAll? {} ((names.zip items).map fun (n, v) => (n, .value v))
  | some _ => none

def ofToml? (s : String) : Option Options := (Toml.read? s).bind ofDocument?

end Options

end ScriptBridge
