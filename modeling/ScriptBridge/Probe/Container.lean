import ScriptBridge.Probe.Value

/-!
# Questions about containers

Runs on a single table and on a single registry of exposed objects.
-/

namespace ScriptBridge

namespace Probe

/-! ## Tables -/

inductive TableCommand where
  | set (key value : Literal)
  | setText (key : String) (value : Literal)
  | setInt (key : Int) (value : Literal)
  | get (key : Literal)
  | getText (key : String)
  | getInt (key : Int)
  | length
  | isEmpty
  | next (key : Literal)
  /-- Every entry, found by asking for the next one. -/
  | all
  | setMetatable (v : Literal)
  | hasMetatable
  | isWeak
  | keep (name : String) (v : Literal)
  | unkeep (name : String)
  /-- Writes an entry of another table. -/
  | edit (table key value : Literal)

inductive TableReply where
  | nothing
  | error (message : String)
  | value (v : ValueView)
  | int (n : Int)
  | bool (b : Bool)
  | entry (e : Option (ValueView × ValueView))
  | entries (es : List (ValueView × ValueView))

/-- How deep values read from the table are shown. -/
def tableDepth : Nat := 3

def showDeep (v : Value) : Action TableReply := do
  return .value ((← get).deepView tableDepth v)

def showEntry (w : World) (e : Value × Value) : ValueView × ValueView :=
  (w.valueView e.1, w.valueView e.2)

/-- What went wrong, as a message. -/
def messageOf : Raise → Action TableReply
  | .runtime v => return .error v.display
  | _ => return .nothing

def writing (x : Script Unit) : Action TableReply := do
  match ← attempt x with
  | .ok () => return .nothing
  | .error e => messageOf e

/-- Entries from a key on, each found by asking for the one after it. -/
def entriesFrom (w : World) (t : Table) : Nat → Value → List (Value × Value)
  | 0, _ => []
  | fuel + 1, key =>
    match t.next w.isLive key with
    | .ok (some (k, v)) => (k, v) :: entriesFrom w t fuel k
    | _ => []

/-- Builds a literal, uses the value and lets go of it. -/
def withLiteral {α : Type} (l : Literal) (x : Value → Action α) : Action α := do
  let v ← l.build
  let result ← x v
  discard v.refs
  return result

def runTable (t : TableRef) (c : TableCommand) : Action TableReply := do
  let w ← get
  let table := w.table t
  match c with
  | .set key value =>
    let key ← key.build
    let value ← value.build
    writing (rawSet t key value)
  | .setText key value =>
    rawSetField t key (← value.build)
    return .nothing
  | .setInt key value =>
    rawSetInt t key (← value.build)
    return .nothing
  | .get key => withLiteral key fun k => do showDeep (← rawGet t k)
  | .getText key => showDeep (← rawGetField t key)
  | .getInt key => showDeep (← rawGetInt t key)
  | .length => return .int (table.length w.isLive)
  | .isEmpty => return .bool (table.isEmpty w.isLive)
  | .next key =>
    withLiteral key fun k => do
      let w ← get
      match table.next w.isLive k with
      | .ok e => return .entry (e.map (showEntry w))
      | .error e => return .error e.message
  | .all => return .entries ((entriesFrom w table table.entries.length .nil).map (showEntry w))
  | .setMetatable v =>
    withLiteral v fun v => do
      match v with
      | .table mt => setTableMetatable t (some mt)
      | _ => setTableMetatable t none
      return .nothing
  | .hasMetatable => return .bool table.metatable.isSome
  | .isWeak => return .bool table.weakValues
  | .keep name v =>
    keep name (← v.build)
    return .nothing
  | .unkeep name =>
    unkeep name
    return .nothing
  | .edit other key value =>
    withLiteral other fun o => do
      let key ← key.build
      let value ← value.build
      match o with
      | .table t =>
        let _ ← attempt (rawSet t key value)
      | _ => discard (key.refs ++ value.refs)
      return .nothing

/-- What a new table answers. -/
def table (cs : List TableCommand) : List TableReply :=
  inFreshSession do
    let t ← newTable {}
    hold [.table t]
    cs.mapM fun c => do
      let r ← runTable t c
      settle
      return r

/-! ## Registries -/

inductive RegistryCommand where
  | expose (name : String)
  | idOf (name : String)
  | resolve (id : Nat)
  | revoke (id : Nat)
  | clear
  | isEmpty

inductive RegistryAnswer where
  | nothing
  | id (n : Nat)
  | idText (s : Option String)
  | name (n : Option String)
  | bool (b : Bool)

structure RegistryReply where
  answer : RegistryAnswer
  size : Nat
  isConsistent : Bool
  debugText : String

/-- A registry and the names of the objects, in order of first mention. -/
structure NamedRegistry where
  registry : Registry := {}
  names : List String := []

namespace NamedRegistry

/-- The object of a name; a new name stands for a new object. -/
def object (r : NamedRegistry) (name : String) : ObjectRef × NamedRegistry :=
  match r.names.findIdx? (· == name) with
  | some i => (⟨i⟩, r)
  | none => (⟨r.names.length⟩, { r with names := r.names ++ [name] })

def nameOf? (r : NamedRegistry) (o : ObjectRef) : Option String := r.names[o.index]?

def run (c : RegistryCommand) (r : NamedRegistry) : RegistryAnswer × NamedRegistry :=
  match c with
  | .expose name =>
    let (o, r) := r.object name
    let (id, registry) := r.registry.expose ObjectRef.index o
    (.id id, { r with registry })
  | .idOf name =>
    let (o, r) := r.object name
    (.idText ((r.registry.idOf? ObjectRef.index o).map ScriptBridge.idText), r)
  | .resolve id => (.name ((r.registry.resolve? id).bind r.nameOf?), r)
  | .revoke id =>
    let (o, registry) := r.registry.revoke ObjectRef.index id
    (.bool o.isSome, { r with registry })
  | .clear => (.nothing, { r with registry := r.registry.clear })
  | .isEmpty => (.bool r.registry.isEmpty, r)

def reply (c : RegistryCommand) (r : NamedRegistry) : RegistryReply × NamedRegistry :=
  let (answer, r) := r.run c
  ({ answer, size := r.registry.size, isConsistent := r.registry.isConsistent ObjectRef.index
     debugText := r.registry.debugText }, r)

end NamedRegistry

/-- What a new registry answers. -/
def registry (cs : List RegistryCommand) : List RegistryReply :=
  let run : StateM NamedRegistry (List RegistryReply) := cs.mapM fun c => NamedRegistry.reply c
  (run {}).1

end Probe

end ScriptBridge
