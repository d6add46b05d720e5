import ScriptBridge.Dictionary
import ScriptBridge.Host.Class

/-!
# The catalog of classes

The classes a session knows, by name. Besides the registered ones it holds the root class, the
class of type objects, the class of event subscriptions, and a class for each array type that was
needed so far. Bases and interfaces are names, so a class may mention others before they are
registered, and the walks along them are bounded.
-/

namespace ScriptBridge

/-- The root: every object can be used where it is expected. -/
def rootName : String := "Object"

/-- The class of type objects. -/
def typeClass : Class := { name := "moonlink.Type" }

/-- The class of event subscriptions, with `Add` and `Remove`. -/
def eventClass : Class :=
  let name := "moonlink.EventBinding"
  { name
    members := [
      .method {
        name := "Add", declaringType := name
        params := [{ type := .handle .function }]
        ret := .named rootName
        body := some .subscribe },
      .method {
        name := "Remove", declaringType := name
        params := [{ type := .named rootName }]
        ret := .void
        body := some .unsubscribe }]
    display := some .event }

/-- The class of arrays of an element type, with the property `Length`. -/
def arrayClass (element : HostType) : Class :=
  { name := (HostType.array element).name
    members := [.property {
      name := "Length", type := .int .i32, isStatic := false
      get := some .arrayLength, set := none }] }

structure Catalog where
  classes : Dictionary String Class

namespace Catalog

/-- The catalog with the built-in classes only. -/
def initial : Catalog :=
  ⟨[{ name := rootName }, typeClass, eventClass].map fun c : Class => (c.name, c)⟩

instance : Inhabited Catalog := ⟨initial⟩

def find? (c : Catalog) (name : String) : Option Class := c.classes.get? name

/-- Adds a class, in place of one of the same name. -/
def register (c : Catalog) (cls : Class) : Catalog := ⟨c.classes.insert cls.name cls⟩

def size (c : Catalog) : Nat := c.classes.length

/-- The class of arrays of an element type, added if it is new. -/
def arrayClass (c : Catalog) (element : HostType) : Class × Catalog :=
  match c.find? (HostType.array element).name with
  | some cls => (cls, c)
  | none =>
    let cls := ScriptBridge.arrayClass element
    (cls, c.register cls)

/-- How many names a walk along bases and interfaces may go through. -/
def walkLimit : Nat := 64

/-- The names a class can directly be used as, besides its own: base first. -/
def parents (cls : Class) : List String := cls.base.toList ++ cls.interfaces

/-- Looks for `target` among pending names and, as far as they are known, their parents. The
name found last is followed first. -/
def reaches (c : Catalog) (target : String) : Nat → List String → Bool
  | 0, _ => false
  | _ + 1, [] => false
  | fuel + 1, name :: pending =>
    name == target ||
      reaches c target fuel
        (match c.find? name with
          | some cls => (parents cls).reverse ++ pending
          | none => pending)

/-- Whether an object of the class can be used where `target` is expected. -/
def isAssignable (c : Catalog) (target : String) (cls : Class) : Bool :=
  target == rootName || target == cls.name
    || c.reaches target (walkLimit + 1) (parents cls).reverse

/-- The class and its bases, at most `limit` of them. -/
def basesFrom (c : Catalog) : Nat → Class → List Class
  | 0, _ => []
  | limit + 1, cls =>
    cls :: match cls.base.bind c.find? with
      | some parent => basesFrom c limit parent
      | none => []

/-- The class and its bases, nearest first. -/
def hierarchy (c : Catalog) (cls : Class) : List Class := c.basesFrom walkLimit cls

end Catalog

end ScriptBridge
