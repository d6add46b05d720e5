import ScriptBridge.Script.Command

/-!
# Scenarios

A whole run from an empty world: either a single machine without a session, or a number of
sessions that declare the same classes, import some of them, and then carry out commands.
-/

namespace ScriptBridge

/-! ## A machine alone -/

/-- Runs operations one after the other on a new machine. -/
def runMachine (limits : Limits) (ops : List Op) : List StepView :=
  let run : Action (List StepView) := ops.mapM fun op => stepCommand Engine.standard (.op op)
  (run (World.start limits)).1

/-! ## Sessions -/

/-- Where the options of sessions come from. -/
inductive Configuration where
  | toml (document : String)
  | options (o : Options) (adapters : AdapterPolicy)

/-- The options and the adapter policy, unless the document cannot be read. -/
def Configuration.read? : Configuration → Option (Options × AdapterPolicy)
  | toml document => (Options.ofToml? document).map (·, .build)
  | options o adapters => some (o, adapters)

structure Scenario where
  configuration : Configuration := .options {} .build
  sessions : Nat := 1
  classes : List ClassDecl := []
  imports : List String := []
  commands : List SessionCommand := []

namespace Scenario

/-- Opens a session and declares the classes in it. -/
def openOne (s : Scenario) (o : Options) (adapters : AdapterPolicy) : Action Unit := do
  openSession o adapters
  s.classes.forM declare

/-- Imports classes in the session of a machine; a class that cannot be imported is passed over. -/
def importAll (E : Engine) (names : List String) (id : Nat) : Action Unit := do
  resume id
  names.forM fun name => do
    let _ ← attempt (importClass E name)
    settle

/-- Opens all sessions and makes the first one the running one. -/
def openAll (E : Engine) (s : Scenario) (o : Options) (adapters : AdapterPolicy) :
    Action Unit := do
  (List.range s.sessions).forM fun _ => s.openOne o adapters
  settle
  let ids := (← get).sessions
  ids.forM (importAll E s.imports)
  ids.head?.forM resume

/-- The items of the commands; nothing if the configuration cannot be read. -/
def run? (s : Scenario) : Option (List Item) := do
  let (o, adapters) ← s.configuration.read?
  let run : Action (List Item) := do
    s.openAll Engine.standard o adapters
    s.commands.mapM (runSessionCommand Engine.standard)
  return (run (World.start {})).1

end Scenario

end ScriptBridge
