import ScriptBridge.Bridge.Proxy

/-!
# Helper functions of scripts

`import_type` gives the proxy of a type by name. `get_method_bysig` and `get_constructor_bysig`
choose one method or constructor by the names of its parameter types.
-/

namespace ScriptBridge

def importType : Host Nat := do
  let cls := (← valueAt 1).toText?.bind (← readSession).catalog.find?
  match cls with
  | some cls => pushType cls
  | none => push .nil
  return 1

/-- The class the first slot stands for: that of a type proxy, or that of an object, which is then
the target too. -/
def classArgument : Host (Class × Option ObjectRef) := do
  match ← objectBehind? (← valueAt 1) with
  | none => throwCause (.invalidTarget "expected a type proxy or a native object")
  | some ref =>
    let o := (← readObject? ref).getD ⟨default, .foreign⟩
    match o.typeTarget? with
    | some cls => return (cls, none)
    | none => return (o.cls, some ref)

/-- The canonical names of the types that texts from a slot on name; other values are passed
over. -/
def signatureArguments (first : Int) : Action (List String) := do
  let values := (← readMachine).valuesFrom first
  return (values.filterMap Value.toText?).map fun s => (HostType.parse s).name

def methodBySignature : Host Nat := do
  let (cls, target) ← classArgument
  match ← valueAt 2 with
  | .text name =>
    match ← bindBySignature cls name (← signatureArguments 3) target with
    | .error cause => throwCause cause
    | .ok d =>
      push (.function (← functionOf name d))
      return 1
  | _ => throwCause (.typeMismatch "string" ((← readMachine).typeAt 2).name)

def constructorBySignature : Host Nat := do
  let (cls, _) ← classArgument
  let signature ← signatureArguments 2
  match cls.constructors.find? (·.signature == signature) with
  | none =>
    throwCause (.memberNotFound cls.name (".ctor(" ++ ", ".intercalate signature ++ ")"))
  | some m =>
    let d ← newDispatcher { name := ".ctor", cls, binding := .constructor, candidates := [m] }
    push (.function (← functionOf ".ctor" d))
    return 1

/-! ## Running handlers -/

/-- Runs a handler that needs the session; what it throws is raised. -/
def inSession (x : Host Nat) : Script Nat := do
  if (← get).session?.isNone then raiseCause noSession
  asScript x

def Handler.run (E : Engine) : Handler → Script Nat
  | objectIndex => inSession ScriptBridge.objectIndex
  | objectAssign => inSession ScriptBridge.objectAssign
  | proxyText => inSession ScriptBridge.proxyText
  | proxyCollected => ScriptBridge.proxyCollected
  | typeIndex => inSession ScriptBridge.typeIndex
  | typeAssign => inSession ScriptBridge.typeAssign
  | typeCall => ScriptBridge.typeCall E
  | delegateCall => ScriptBridge.delegateCall E
  | errorText => ScriptBridge.errorText
  | importType => inSession ScriptBridge.importType
  | methodBySignature => inSession ScriptBridge.methodBySignature
  | constructorBySignature => inSession ScriptBridge.constructorBySignature

end ScriptBridge
