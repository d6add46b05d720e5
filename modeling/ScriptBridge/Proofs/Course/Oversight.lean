import ScriptBridge.Proofs.Course.Run

/-!
# Overseen engines

What holds all the way through a run is stated by an overseen engine. It runs everything as the
engine of the same depth does while a check of the world succeeds, before each operation, statement
and expression and at both ends of bodies; from any world that fails the check an arbitrary engine
takes over. If the properties of a conduct imply the check, both engines are alike, so no run from a
world with one of the properties reaches a world that fails.
-/

namespace ScriptBridge

variable {C : Conduct} {own : Bool} {R : Regime} {α ε : Type}

section

variable (ok : World → Prop) [DecidablePred ok]

/-- The first program from the worlds that pass a check, the second one from all others. -/
def checked (x y : World → α) (w : World) : α := if ok w then x w else y w

variable (J E : Engine)

/-- Runs operations as `runBlock` does, with a check before each and after the last. -/
def checkedBlock : List Op → Script (Option Nat)
  | [] => checked ok (return none : Script (Option Nat)) (J.block [])
  | op :: rest => checked ok (do
      match ← performOp E op with
      | .done => checkedBlock rest
      | .answer r =>
        addTrace r
        checkedBlock rest
      | .return n => return some n : Script (Option Nat)) (J.block (op :: rest))

/-- Runs statements as `runStatements` does, with a check before each and after the last. -/
def checkedStatements : List Stmt → Host (Option HostValue)
  | [] => checked ok (return none : Host (Option HostValue)) (J.statements [])
  | s :: rest => checked ok (do
      match ← s.run E with
      | some v =>
        settleBeside v.refs
        return some v
      | none =>
        settle
        checkedStatements rest : Host (Option HostValue)) (J.statements (s :: rest))

/-- The engine that nests to a depth, but leaves every world that fails a check to another one. -/
def Engine.overseen : Nat → Engine
  | 0 => exhausted
  | depth + 1 =>
    let E := overseen depth
    { run := fun f => checked ok (runFunction E f) (J.run f)
      block := checkedBlock ok J E
      invoke := fun m cls target arguments =>
        checked ok (m.invoke E cls target arguments) (J.invoke m cls target arguments)
      statements := checkedStatements ok J E
      eval := fun e => checked ok (e.run E) (J.eval e) }

end

variable {ok : World → Prop}

/-- The worlds of a regime pass a check. -/
def Regime.Passes (R : Regime) (ok : World → Prop) : Prop := ∀ Q w, R.Has Q → Q w → ok w

/-- The worlds on the courses from a stable property pass the checks that it implies. -/
theorem Stable.passes {P : Stable} (h : ∀ w b, P.Holds w b → ok w) (own : Bool) :
    (P.regime own).Passes ok := by
  rintro _ w ⟨w₀, b₀, hP, rfl⟩ ⟨b, hw⟩
  exact h w b (P.course hw hP)

variable [DecidablePred ok]

theorem alike_checked {x y z : EStateM ε World α} (hok : R.Passes ok) (h : Alike R x y) :
    Alike R (checked ok x z : EStateM ε World α) y := by
  intro Q hQ w hw
  have hrun : checked ok x z w = x w := if_pos (hok Q w hQ hw)
  rw [hrun]
  exact h Q hQ w hw

theorem alike_checkedAction {x y z : Action α} (hok : R.Passes ok) (h : Alike R x y) :
    Alike R (checked ok x z : Action α) y := by
  intro Q hQ w hw
  have hrun : checked ok x z w = x w := if_pos (hok Q w hQ hw)
  rw [hrun]
  exact h Q hQ w hw

variable (hok : ∀ own, (C.regime own).Passes ok)

include hok

theorem alike_checkedBlock (J : Engine) {E E' : Engine} (hE : E.Alike C E')
    (ops : List Op) : Alike (C.regime own) (checkedBlock ok J E ops) (runBlock E' ops) := by
  induction ops with
  | nil => exact alike_checked (hok _) (.pure _)
  | cons op rest ih =>
    refine alike_checked (hok _) (.bind (alike_performOp hE op) fun s => ?_)
    cases s with
    | done => exact ih
    | answer r =>
      exact .bind (.lift (.modify (fun _ _ => .books ..) fun _ => .of_same rfl rfl rfl)) fun _ => ih
    | «return» n => exact .pure _

theorem alike_checkedStatements (J : Engine) {E E' : Engine} (hE : E.Alike C E')
    (body : List Stmt) (hbody : ∀ s ∈ body, s.fills = true → C.Fills) :
    Alike (C.regime true) (checkedStatements ok J E body) (runStatements E' body) := by
  induction body with
  | nil => exact alike_checked (hok _) (.pure _)
  | cons s rest ih =>
    refine alike_checked (hok _) 
      (.bind (alike_stmtRun hE s (hbody s List.mem_cons_self)) fun v => ?_)
    cases v with
    | some v => exact .bind (.lift (orderly_settleBeside _)) fun _ => .pure _
    | none =>
      exact .bind (.lift orderly_settle) fun _ =>
        ih fun s hs => hbody s (List.mem_cons_of_mem _ hs)

/-- The check never fails in a run from a world with one of the properties. -/
theorem Engine.overseen_alike [C.Fills] (J : Engine) (d : Nat) :
    (overseen ok J d).Alike C (ofDepth d) := by
  induction d with
  | zero => exact exhausted_alike _
  | succ d ih =>
    exact {
      run := fun f => alike_checked (hok _) (alike_runFunction ih f)
      block := alike_checkedBlock hok J ih
      invoke := fun m cls target arguments =>
        alike_checkedAction (hok _) (alike_methodInvoke ih m cls target arguments)
      statements := fun body =>
        alike_checkedStatements hok J ih body fun _ _ _ => inferInstance
      eval := fun e => alike_checked (hok _) (alike_exprRun ih e) }

end ScriptBridge
