import ScriptBridge.Probe.Value

/-!
# Questions about classes

What a declaration makes, and what a catalog of classes answers.
-/

namespace ScriptBridge

/-! ## Texts for developers -/

def ClassKind.text : ClassKind → String
  | .plain => "Class"
  | .interface => "Interface"
  | .delegate => "Delegate"
  | .struct => "Struct"

def Class.debugText (c : Class) : String :=
  "ClassInfo \x7b name: " ++ Text.quote c.name ++ ", kind: " ++ c.kind.text ++ ", members: "
    ++ toString c.members.length ++ " \x7d"

namespace Probe

/-! ## Classes -/

structure ParamFacts where
  type : HostType
  mode : ParamMode
  variadic : Bool
  default : Option HostView
  element : Option HostType

structure MethodFacts where
  callable : String
  isAbstract : Bool
  signature : List String
  described : String
  params : List ParamFacts

structure MemberFacts where
  name : String
  kind : String
  isStatic : Bool
  /-- How many members of the class have the name. -/
  sameName : Nat
  method : Option MethodFacts

structure ConstructorFacts where
  callable : String
  ret : HostType
  signature : List String
  isStatic : Bool

structure ClassFacts where
  cls : Class
  members : List MemberFacts
  constructors : List ConstructorFacts
  invoke : Option (List String)
  /-- How an object of the class shows itself. -/
  object : String
  /-- How its type object shows itself. -/
  typeObject : String

def factsOfParam (p : Param) : Action ParamFacts := do
  return {
    type := p.type, mode := p.mode, variadic := p.variadic
    default := ← p.default.mapM fun v => showHost v 1
    element := p.element? }

def factsOfMethod (m : Method) : Action MethodFacts := do
  return {
    callable := m.callable, isAbstract := m.isAbstract, signature := m.signature
    described := m.describe, params := ← m.params.mapM factsOfParam }

/-- The word for a kind of member. -/
def memberKind : Member → String
  | .field _ => "field"
  | .property _ => "property"
  | .method _ => "method"
  | .event _ => "event"
  | .nested _ _ => "nested"

def factsOfMember (c : Class) (m : Member) : Action MemberFacts := do
  return {
    name := m.name, kind := memberKind m, isStatic := m.isStatic
    sameName := (c.membersNamed m.name).length
    method := ← m.method?.mapM factsOfMethod }

def factsOfConstructor (m : Method) : ConstructorFacts :=
  { callable := m.callable, ret := m.ret, signature := m.signature, isStatic := m.isStatic }

/-- How an object of a class shows itself, and how its type object does. -/
def displays (c : Class) : String × String :=
  (HostObject.text ⟨c, .foreign⟩, HostObject.text ⟨typeClass, .typeOf c⟩)

/-- What a declaration makes. -/
def classOf (d : ClassDecl) : ClassFacts :=
  inFreshSession do
    let c ← d.build
    let (object, typeObject) := displays c
    return {
      cls := c
      members := ← c.members.mapM (factsOfMember c)
      constructors := c.constructors.map factsOfConstructor
      invoke := c.invokeMethod?.map Method.signature
      object, typeObject }

/-! ## Catalogs -/

inductive CatalogCommand where
  | register (d : ClassDecl)
  | find (name : String)
  | isAssignable (target className : String)
  | hierarchy (className : String)
  | arrayClass (element : HostType)
  | array (element : HostType) (items : List HostLiteral)
  | typeObject (className : String)
  | size

inductive CatalogReply where
  | size (n : Nat)
  | found (c : Option Class)
  | bool (b : Bool)
  | names (ns : List String)
  /-- A class of arrays and the size of the catalog that has it. -/
  | arrayClass (c : Class) (size : Nat)
  | shown (v : HostView)
  | text (s : String)
  | sizeAndEmptiness (n : Nat) (isEmpty : Bool)

def catalogSize : Action Nat := do return (← readSession).catalog.size

def runCatalog (c : CatalogCommand) : Action CatalogReply := do
  let catalog := (← readSession).catalog
  match c with
  | .register d =>
    declare d
    return .size (← catalogSize)
  | .find name => return .found (catalog.find? name)
  | .isAssignable target className =>
    return .bool (catalog.isAssignable target (← classNamed className))
  | .hierarchy className =>
    return .names ((catalog.hierarchy (← classNamed className)).map (·.name))
  | .arrayClass element =>
    let (cls, catalog) := catalog.arrayClass element
    modifySession fun s => { s with catalog }
    return .arrayClass cls catalog.size
  | .array element items =>
    let items ← buildHostLiterals items
    let o ← newArray element items.toArray
    return .shown (← showHost (.object o) 4)
  | .typeObject className => return .text (displays (← classNamed className)).2
  | .size => return .sizeAndEmptiness catalog.size (catalog.size == 0)

/-- What a new catalog answers. -/
def catalog (cs : List CatalogCommand) : List CatalogReply := inFreshSession (cs.mapM runCatalog)

end Probe

end ScriptBridge
