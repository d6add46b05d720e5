import ScriptBridge.Vm.Call

/-!
# Finalizers

Collecting runs the finalizers of the graveyard, oldest first, until none is left; those that die
meanwhile make a further round. A finalizer sees its userdata again, under the same metatable but
finalized, so that it is never buried a second time. Errors of finalizers are dropped.
-/

namespace ScriptBridge

/-- Holds references until `unhold`. -/
def hold (refs : List Ref) : Action Unit := modify fun w => { w with held := refs ++ w.held }

/-- Stops holding references that go on to another holder. -/
def handOver (refs : List Ref) : Action Unit := modify fun w =>
  { w with held := refs.foldl List.erase w.held }

/-- Stops holding references and lets go of them. -/
def unhold (refs : List Ref) : Action Unit := do
  handOver refs
  discard refs

/-- Brings a userdata back for its finalizer. -/
def resurrect (p : Pending) : Action UserdataRef := modifyGet fun w =>
  let u : Userdata :=
    { payload := p.payload, metatable := some p.metatable, home := w.machine.id, finalized := true }
  (⟨w.userdata.next⟩, { w with userdata := w.userdata.add u })

/-- Runs one finalizer, if the metatable still has one. -/
def finalize (E : Engine) (p : Pending) : Script Unit := do
  let handler ← rawGetField p.metatable "__gc"
  let u ← resurrect p
  unhold [.table p.metatable]
  match handler with
  | .function f =>
    let top := (← readMachine).top
    push (.function f)
    push (.userdata u)
    let _ ← protectedCall E 1 0
    setTop top
  | _ => release [.userdata u]

/-- Takes the whole graveyard. -/
def takeGraveyard : Action (List Pending) := modifyGet fun w =>
  (w.machine.graveyard, { w with machine := { w.machine with graveyard := [] } })

/-- Runs rounds of finalizers until a round finds none; gives how many ran. -/
def collectRounds (E : Engine) (count : Nat) : Nat → Script Nat
  | 0 => throw .exhausted
  | fuel + 1 => do
    let batch ← takeGraveyard
    if batch.isEmpty then return count
    hold (batch.map (.table ·.metatable))
    batch.forM (finalize E)
    collectRounds E (count + batch.length) fuel

/-- Bound on the rounds of one collection. -/
def roundLimit : Nat := 1000000

/-- Runs the finalizers of all userdata that died; gives how many ran. -/
def collect (E : Engine) : Script Nat := collectRounds E 0 roundLimit

end ScriptBridge
