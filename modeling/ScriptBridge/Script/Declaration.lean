import ScriptBridge.Script.Literal

/-!
# Declaring classes

A declaration is what a program says about a class. Building it makes the class: methods get
their bodies, static members get cells of storage of their own, and instance members are slots in
the bags of objects.
-/

namespace ScriptBridge

/-! ## Declarations -/

/-- What an accessor of a property or event does besides failing. -/
inductive Accessor where
  | plain
  /-- Throws the named exception that says what was tried. -/
  | throws
deriving DecidableEq, Repr

inductive MemberDecl where
  | method (name : String) (isStatic : Bool) (params : List ParamSpec) (ret : HostType)
      (body : List Stmt)
  /-- An instance method without a body. -/
  | abstract (name : String) (params : List ParamSpec) (ret : HostType)
  | field (name : String) (isStatic : Bool) (type : HostType) (init : HostLiteral)
  | property (name : String) (isStatic : Bool) (type : HostType) (init : HostLiteral)
      (get set : Option Accessor)
  | event (name : String) (isStatic : Bool) (delegateType : String) (add remove : Accessor)
  | nested (name fullName : String)

structure ConstructorDecl where
  params : List ParamSpec
  body : List Stmt

/-- A class with members of its own. -/
structure ClassBody where
  kind : ClassKind := .plain
  base : Option String := none
  interfaces : List String := []
  constructors : List ConstructorDecl := []
  members : List MemberDecl := []
  indexer : Option Indexer := none
  label : Option String := none

inductive ClassDecl where
  | full (name : String) (body : ClassBody)
  /-- A delegate class; all it has is its call signature. -/
  | delegate (name : String) (params : List ParamSpec) (ret : HostType)

/-! ## Parameters and storage -/

/-- A new cell with a value. -/
def store (v : HostValue) : Action CellRef := newCell (.value v)

def ParamSpec.build (p : ParamSpec) : Action Param := do
  let default ← p.default.mapM HostLiteral.build
  return { type := p.type, mode := p.mode, default, variadic := p.variadic }

def Param.refs (p : Param) : List Ref := (p.default.map HostValue.refs).getD []

/-- Parameters, and the cells of their default values. -/
def buildParams (specs : List ParamSpec) : Action (List Param × List CellRef) := do
  let params ← specs.mapM ParamSpec.build
  return (params, ← (params.filterMap (·.default)).mapM store)

/-! ## Members -/

def buildAccessor {α : Type} (a : Option Accessor) (plain throws : α) : Option α :=
  a.map fun
    | .plain => plain
    | .throws => throws

/-- A static field; it always has both accessors. -/
def staticField (name : String) (type : HostType) (init : HostValue) : Action Field := do
  let c ← store init
  return { name, type, isStatic := true, get := some (.cell c), set := some (.cell c) }

/-- The property with the accessors that were asked for. -/
def propertyWith (name : String) (isStatic : Bool) (type : HostType) (get set : Option Accessor)
    (read : Getter) (write : Setter) : Field :=
  { name, type, isStatic
    get := buildAccessor get read (.throws ("get " ++ name))
    set := buildAccessor set write (.throws ("set " ++ name)) }

/-- A property; a static one has a cell of its own, unless no accessor uses it. -/
def buildProperty (name : String) (isStatic : Bool) (type : HostType) (init : HostLiteral)
    (get set : Option Accessor) : Action Field := do
  if isStatic then
    let c ← store (← init.build)
    let f := propertyWith name isStatic type get set (.cell c) (.cell c)
    if f.cells.isEmpty then discard [.cell c]
    return f
  else return propertyWith name isStatic type get set (.slot name) (.slot name)

/-- An event; what has no target shares one list of handlers. -/
def buildEvent (name : String) (isStatic : Bool) (delegateType : String)
    (add remove : Accessor) : Action Event := do
  let shared ← newCell (.handlers [])
  let hook (a : Accessor) (exception : String) : EventHook :=
    match a with
    | .plain => .handlers name shared
    | .throws => .throws exception
  return {
    name, delegateType, isStatic
    add := hook add ("add " ++ name)
    remove := hook remove ("remove " ++ name) }

/-- A member of the class of a name. -/
def MemberDecl.build (owner : String) : MemberDecl → Action Member
  | method name isStatic params ret body => do
    let (params, storage) ← buildParams params
    return .method {
      name, declaringType := owner, params, ret, isStatic
      body := some (.statements body), storage }
  | abstract name params ret => do
    let (params, storage) ← buildParams params
    return .method { name, declaringType := owner, params, ret, body := none, storage }
  | field name isStatic type init => do
    if isStatic then return .field (← staticField name type (← init.build))
    return .field {
      name, type, isStatic
      get := some (.field name owner)
      set := some (.field name owner) }
  | property name isStatic type init get set => do
    return .property (← buildProperty name isStatic type init get set)
  | event name isStatic delegateType add remove => do
    return .event (← buildEvent name isStatic delegateType add remove)
  | nested name fullName => return .nested name fullName

/-- A constructor; it is static and gives its class. -/
def ConstructorDecl.build (owner : String) (c : ConstructorDecl) : Action Method := do
  let (params, storage) ← buildParams c.params
  return {
    name := ".ctor", declaringType := owner, params
    ret := .named owner, isStatic := true, isConstructor := true
    body := some (.statements c.body), storage }

/-! ## Classes -/

/-- The class of a declaration, with fresh storage. -/
def ClassDecl.build : ClassDecl → Action Class
  | full name b => do
    let constructors ← b.constructors.mapM (·.build name)
    let members ← b.members.mapM (·.build name)
    return {
      name, kind := b.kind, base := b.base, interfaces := b.interfaces, members, constructors
      indexer := b.indexer, display := b.label.map Display.labelled }
  | delegate name params ret => do
    let (params, storage) ← buildParams params
    let invoke : Method :=
      { name := "Invoke", declaringType := name, params, ret
        body := some .delegateBody, storage }
    return { name, kind := .delegate, members := [.method invoke] }

/-- Declares a class in the session, in place of one of the same name. -/
def declare (d : ClassDecl) : Action Unit := do
  let cls ← d.build
  let old := (← readSession).catalog.find? cls.name
  modifySession fun s => { s with catalog := s.catalog.register cls }
  discard ((old.map Class.refs).getD [])

end ScriptBridge
