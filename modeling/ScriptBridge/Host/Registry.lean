import ScriptBridge.Dictionary
import ScriptBridge.Host.Value

/-!
# Ids of exposed objects

The registry gives each exposed object one id and finds both from each other. Ids grow and are
never given twice, also not after the registry was cleared.

An object is known to the registry by its address, and where objects are is up to the allocator:
the functions that look at an address take the `Layout` of the objects. An address is free again
once the object at it is gone, so two objects may have one address if they never live at once. In
the heap of a session an object is at its index.
-/

namespace ScriptBridge

/-- The address of each object. -/
abbrev Layout := ObjectRef → Nat

structure Registry where
  /-- The last id given; zero before the first. -/
  lastId : Nat := 0
  objects : Dictionary Nat ObjectRef := []
  /-- The ids by the addresses of their objects. -/
  ids : Dictionary Nat Nat := []
deriving Inhabited, Repr

namespace Registry

/-- The object of an id, until the id is revoked. -/
def resolve? (r : Registry) (id : Nat) : Option ObjectRef := r.objects.get? id

/-- The id of an object, if it has one. -/
def idOf? (layout : Layout) (r : Registry) (o : ObjectRef) : Option Nat := r.ids.get? (layout o)

/-- The id of an object, a fresh one if it has none. -/
def expose (layout : Layout) (r : Registry) (o : ObjectRef) : Nat × Registry :=
  match r.idOf? layout o with
  | some id => (id, r)
  | none =>
    let id := r.lastId + 1
    (id, { lastId := id, objects := r.objects.insert id o, ids := r.ids.insert (layout o) id })

/-- Takes an id back; gives the object it had. -/
def revoke (layout : Layout) (r : Registry) (id : Nat) : Option ObjectRef × Registry :=
  match r.resolve? id with
  | some o =>
    (some o, { r with objects := r.objects.erase id, ids := r.ids.erase (layout o) })
  | none => (none, r)

def clear (r : Registry) : Registry := { r with objects := [], ids := [] }

def size (r : Registry) : Nat := r.objects.length

def isEmpty (r : Registry) : Bool := r.size == 0

/-- Both directions have the same size and agree. -/
def isConsistent (layout : Layout) (r : Registry) : Bool :=
  r.objects.length == r.ids.length && r.objects.all fun (id, o) => r.idOf? layout o == some id

/-- The text of a registry for its developers. -/
def debugText (r : Registry) : String :=
  "ReferenceRegistry \x7b len: " ++ toString r.size ++ " \x7d"

end Registry

/-- The text of an id. -/
def idText (id : Nat) : String := "#" ++ toString id

end ScriptBridge
