import ScriptBridge.Bridge.Identity

/-!
# Looking up members

`Catalog.findMember?` looks a name up along the bases of a class: all methods of the name, nearest
class first, or else the first member of another kind. The session remembers what it found, so
that a method group is one dispatcher with one function.
-/

namespace ScriptBridge

/-- What a look-up in the catalog finds. -/
inductive MemberGroup where
  | methods (candidates : List Method)
  | field (f : Field)
  | property (f : Field)
  | event (e : Event)
  | nested (cls : Option Class)

namespace Catalog

/-- The members of a name along the bases of a class, nearest first. -/
def membersOf (c : Catalog) (cls : Class) (name : String) : List Member :=
  (c.hierarchy cls).flatMap (·.membersNamed name)

/-- The methods of a name that are static or not, nearest class first. -/
def methodsOf (c : Catalog) (cls : Class) (name : String) (isStatic : Bool) : List Method :=
  ((c.membersOf cls name).filterMap Member.method?).filter (·.isStatic == isStatic)

/-- A member that is no method. -/
def groupOf? (c : Catalog) : Member → Option MemberGroup
  | .field f => some (.field f)
  | .property f => some (.property f)
  | .event e => some (.event e)
  | .nested _ fullName => some (.nested (c.find? fullName))
  | .method _ => none

/-- What a name stands for among the static or the instance members of a class. -/
def findMember? (c : Catalog) (cls : Class) (name : String) (isStatic : Bool) :
    Option MemberGroup :=
  match c.methodsOf cls name isStatic with
  | [] =>
    ((c.membersOf cls name).filter (·.isStatic == isStatic)).findSome? c.groupOf?
  | candidates => some (.methods candidates)

/-- The nearest class along the bases that has an indexer. -/
def indexerClass? (c : Catalog) (cls : Class) : Option Class :=
  (c.hierarchy cls).find? (·.indexer.isSome)

/-- The first method of a name along the bases with exactly the given parameter types. -/
def methodBySignature? (c : Catalog) (cls : Class) (name : String) (signature : List String) :
    Option Method :=
  ((c.membersOf cls name).filterMap Member.method?).find? (·.signature == signature)

end Catalog

/-! ## Functions of dispatchers -/

/-- A function that calls a dispatcher. -/
def functionOf (name : String) (d : DispatcherRef) : Action FunctionRef :=
  newFunction ⟨.named name, .dispatcher d⟩

/-! ## The session's memory -/

/-- The dispatcher and its function for a group of methods; other members stand for
themselves. -/
def foundMember (cls : Class) (name : String) (isStatic : Bool) (g : MemberGroup) :
    Action FoundMember := do
  match g with
  | .methods candidates =>
    let binding := if isStatic then Binding.static else .onObject
    let d ← newDispatcher { name, cls, binding, candidates }
    return .method d (← functionOf name d) binding
  | .field f => return .field f
  | .property f => return .property f
  | .event e => return .event e
  | .nested c => return .nested c

/-- Which members a look-up finds: those of an instance, and after them static ones if the options
say so; or static ones only. -/
def findGroup (s : Session) (cls : Class) (binding : Binding) (name : String) :
    Option (Bool × MemberGroup) :=
  let find (isStatic : Bool) : Option (Bool × MemberGroup) :=
    (s.catalog.findMember? cls name isStatic).map (isStatic, ·)
  match binding with
  | .onObject => (find false).or (if s.options.implicitStatic then find true else none)
  | _ => find true

/-- The member of a name, remembered from the first time it was found. -/
def member? (cls : Class) (binding : Binding) (name : String) : Action (Option FoundMember) := do
  let s ← readSession
  let key := (cls.name, binding, name)
  match s.members.get? key with
  | some found => return some found
  | none =>
    match findGroup s cls binding name with
    | none => return none
    | some (isStatic, g) =>
      let found ← foundMember cls name isStatic g
      modifySession fun s => { s with members := s.members.insert key found }
      return some found

/-- The dispatcher over the constructors of a class, if it has some. -/
def constructor? (cls : Class) : Action (Option DispatcherRef) := do
  match (← readSession).constructors.get? cls.name with
  | some d => return some d
  | none =>
    if cls.constructors.isEmpty then return none
    let d ← newDispatcher
      { name := ".ctor", cls, binding := .constructor, candidates := cls.constructors }
    modifySession fun s => { s with constructors := s.constructors.insert cls.name d }
    return some d

/-- The class that declares the indexer of a class. -/
def indexerClass? (cls : Class) : Action (Option Class) := do
  return (← readSession).catalog.indexerClass? cls

/-- A single method, chosen by its parameter types; an instance method is bound to the target. -/
def bindBySignature (cls : Class) (name : String) (signature : List String)
    (target : Option ObjectRef) : Action (Except Cause DispatcherRef) := do
  match (← readSession).catalog.methodBySignature? cls name signature with
  | none =>
    return .error (.memberNotFound cls.name (name ++ "(" ++ ", ".intercalate signature ++ ")"))
  | some m =>
    let binding := if m.isStatic then Binding.static else .onObject
    let bound := if m.isStatic then none else target
    return .ok (← newDispatcher { name, cls, binding, candidates := [m], bound })

end ScriptBridge
