import ScriptBridge.Proofs.Course.Oversight

/-!
# Host bodies that fill no arrays

A sparing engine runs host bodies without the statements that store values in arrays. Whatever it
runs keeps to every conduct, also to those under which only scripts may fill arrays. A run in which
host bodies store nothing in arrays is one that goes the same under the sparing engine.
-/

namespace ScriptBridge

/-- The statements of a body that fill no array. -/
def sparingStatements (body : List Stmt) : List Stmt := body.filter (!·.fills)

/-- The engine that nests to a depth, whose host bodies store nothing in arrays. -/
def Engine.sparing : Nat → Engine
  | 0 => exhausted
  | depth + 1 =>
    let E := sparing depth
    { E.step with statements := fun body w => runStatements E (sparingStatements body) w }

/-- The same engine, but it leaves every world that fails a check to another one. -/
def Engine.spared (ok : World → Prop) [DecidablePred ok] (J : Engine) : Nat → Engine
  | 0 => exhausted
  | depth + 1 =>
    let E := spared ok J depth
    { run := fun f => checked ok (runFunction E f) (J.run f)
      block := checkedBlock ok J E
      invoke := fun m cls target arguments =>
        checked ok (m.invoke E cls target arguments) (J.invoke m cls target arguments)
      statements := fun body => checkedStatements ok J E (sparingStatements body)
      eval := fun e => checked ok (e.run E) (J.eval e) }

variable {C : Conduct}

/-- Sparing statements need no leave to fill arrays. -/
theorem not_fills_of_mem {body : List Stmt} {s : Stmt} (hs : s ∈ sparingStatements body) :
    s.fills = true → C.Fills := by
  intro hfills
  have hspares := (List.mem_filter.mp hs).2
  rw [hfills] at hspares
  cases hspares

namespace Engine

theorem sparing_alike (C : Conduct) (d : Nat) : (sparing d).Alike C (sparing d) := by
  induction d with
  | zero => exact exhausted_alike C
  | succ d ih =>
    exact {
      run := alike_runFunction ih
      block := alike_runBlock ih
      invoke := alike_methodInvoke ih
      statements := fun body => alike_runStatements ih _ fun _ => not_fills_of_mem
      eval := alike_exprRun ih }

/-- A check that the properties of a conduct imply never fails in a sparing run. -/
theorem spared_alike {ok : World → Prop} [DecidablePred ok]
    (hok : ∀ own, (C.regime own).Passes ok) (J : Engine) (d : Nat) :
    (spared ok J d).Alike C (sparing d) := by
  induction d with
  | zero => exact exhausted_alike C
  | succ d ih =>
    exact {
      run := fun f => alike_checked (hok _) (alike_runFunction ih f)
      block := alike_checkedBlock hok J ih
      invoke := fun m cls target arguments =>
        alike_checkedAction (hok _) (alike_methodInvoke ih m cls target arguments)
      statements := fun body =>
        alike_checkedStatements hok J ih _ fun _ => not_fills_of_mem
      eval := fun e => alike_checked (hok _) (alike_exprRun ih e) }

end Engine

end ScriptBridge
