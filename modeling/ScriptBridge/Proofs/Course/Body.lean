import ScriptBridge.Proofs.Course.Call

/-!
# Host bodies under a conduct

Expressions, statements and methods are alike under two engines that run everything alike. Only
statements change the arguments of the running activation.
-/

namespace ScriptBridge

variable {C : Conduct} {own : Bool} {R : Regime}

/-! ## The running activation -/

theorem orderly_activation : Orderly R activation := .bind .get fun _ => .pure _

theorem alike_keeping {α : Type} (refs : List Ref) {x y : Host α} (h : Alike R x y) :
    Alike R (keeping refs x) (keeping refs y) := by
  refine .bind (.lift (orderly_hold _)) fun _ => .bind (.lift h.attempt) fun outcome => ?_
  cases outcome with
  | ok a => exact .bind (.lift (orderly_handOver _)) fun _ => .pure a
  | error e => exact .bind (.lift (orderly_unhold _)) fun _ => .throw e

/-- A bag that was found while references were held is still there. -/
theorem readBag?_of_keeping {a : Activation} {refs : List Ref} {w w' : World} {b : Bag}
    (h : keeping refs (targetBag a) w = .ok b w') : (readBag? a.target w').1 = some b := by
  let w₁ : World := (hold refs w).2
  have hread : readBag? a.target w₁ = ((readBag? a.target w).1, w₁) := by cases a.target <;> rfl
  have hafter : (readBag? a.target (handOver refs w₁).2).1 = (readBag? a.target w).1 := by
    cases a.target <;> rfl
  unfold keeping at h
  rw [lift_bind, lift_bind] at h
  cases hbag : (readBag? a.target w).1 with
  | none =>
    have hfail : targetBag a w₁ = throwCause (missingTarget a.cls) w₁ := by
      unfold targetBag
      rw [bind_of_ok (lift_of_eq hread), hbag]
    rw [attempt_of_error (hfail.trans rfl)] at h
    cases h
  | some b' =>
    have hok : targetBag a w₁ = .ok b' w₁ := by
      unfold targetBag
      rw [bind_of_ok (lift_of_eq hread), hbag]
      rfl
    rw [attempt_of_ok hok] at h
    have hdone : (.ok b' (handOver refs w₁).2 : EStateM.Result Failure World Bag) = .ok b w' := h
    cases hdone
    exact hafter.trans hbag

theorem orderly_targetBag (a : Activation) : Orderly R (targetBag a) := by
  refine .bind (.lift (orderly_readBag? a.target)) fun b => ?_
  cases b with
  | none => exact orderly_throwCause _
  | some b => exact .pure b

/-- A slot of the target is written to, with some references held while its bag is looked up. -/
theorem orderly_setTargetSlot [R.Stores] (a : Activation) (refs : List Ref) (name : String)
    (v : HostValue) : Orderly R (do
      let b ← keeping refs (targetBag a)
      setSlot a.target b name v
      return none : Host (Option HostValue)) := by
  intro Q hQ w hw
  refine ⟨rfl, ?_⟩
  have hfound := (alike_keeping refs (orderly_targetBag a) Q hQ w hw).2
  cases hkept : keeping refs (targetBag a) w with
  | error e w₁ =>
    rw [hkept] at hfound
    rw [bind_of_error hkept]
    exact hfound
  | ok b w₁ =>
    rw [hkept] at hfound
    rw [bind_of_ok hkept]
    exact R.setSlot hQ hfound (readBag?_of_keeping hkept) name v

theorem orderly_optionMapM {m : Type → Type} [Monad m] [LawfulMonad m]
    [MonadStateOf World m] [Program m] {α β : Type} {f : α → m β} (h : ∀ a, Orderly R (f a))
    (o : Option α) : Orderly R (o.mapM f) := by
  cases o with
  | none => exact .pure _
  | some a =>
    rw [Option.mapM_some, map_eq_pure_bind]
    exact .bind (h a) fun _ => .pure _

/-! ## Calls -/

theorem orderly_takeResult (out : Option Nat) (outcome : CallOutcome) :
    Orderly R (takeResult out outcome) := by
  obtain ⟨result, arguments⟩ := outcome
  cases result with
  | ok ret => exact .bind (.lift (orderly_discard _)) fun _ => .pure _
  | error e => exact .bind (.lift (orderly_discard _)) fun _ => .throw e

theorem orderly_itemsOf (v : HostValue) : Orderly R (itemsOf v) := orderly_readItems? _

theorem orderly_setItem [R.Fills] (array : HostValue) (i : Int) (v : HostValue) :
    Orderly R (setItem array i v) := by
  unfold setItem
  cases array.asObject? with
  | none => exact orderly_discard _
  | some ref =>
    refine .bind (orderly_readObject? ref) fun o => ?_
    split
    · split
      · exact .bind (orderly_setObjectData _ _) fun _ => orderly_discard _
      · exact orderly_discard _
    · exact orderly_discard _

theorem orderly_discardReplaced (old new : List HostValue) :
    Orderly R (discardReplaced old new) :=
  orderly_discard _

/-! ## Subscriptions -/

theorem orderly_subscriptionOf (a : Activation) : Orderly R (subscriptionOf a) := by
  unfold subscriptionOf
  cases a.target with
  | none => exact orderly_throwCause _
  | some ref =>
    refine .bind (.lift (orderly_readObject? ref)) fun o => ?_
    split
    · exact .pure _
    · exact orderly_throwCause _

theorem orderly_runSubscribe [R.Stores] : Orderly R runSubscribe := by
  refine .bind (.lift orderly_activation) fun a =>
    .bind (orderly_subscriptionOf a) fun ⟨ref, target, event⟩ => ?_
  dsimp only
  split
  · refine .bind .get fun w => ?_
    split
    · split
      · refine .bind (.lift (orderly_delegateFor _ _)) fun made => ?_
        cases made with
        | error cause => exact orderly_throwCause _
        | ok handler =>
          refine .bind (.lift (orderly_subscribe event target handler).attempt) fun done => ?_
          cases done with
          | ok _ => exact .bind (.lift (orderly_trackEvent ref handler)) fun _ => .pure _
          | error e => exact .bind (.lift (orderly_discard _)) fun _ => .throw e
      · exact orderly_throwCause _
    · exact orderly_throwCause _
  · exact orderly_throwCause _

theorem orderly_runUnsubscribe [R.Stores] : Orderly R runUnsubscribe := by
  refine .bind (.lift orderly_activation) fun a =>
    .bind (orderly_subscriptionOf a) fun ⟨_, target, event⟩ => ?_
  dsimp only
  split
  · exact .pure _
  · rename_i handler _
    refine .bind (orderly_unsubscribe event target handler) fun _ => .bind .get fun w => ?_
    split
    · exact .bind (orderly_throwCause _) fun _ =>
        .bind (.lift (orderly_untrackEvent handler)) fun _ => .pure _
    · exact .bind (.lift (orderly_untrackEvent handler)) fun _ => .pure _

/-! ## Expressions -/

theorem alike_holding {α ε : Type} (refs : List Ref) {x y : EStateM ε World α}
    (h : Alike R x y) : Alike R (holding refs x) (holding refs y) := by
  refine .bind .get fun _ =>
    .bind (.modify (fun _ _ => .books ..) fun _ => .of_same rfl rfl rfl) fun _ =>
      .bind (.lift h.attempt) fun outcome =>
        .bind (.modify (fun _ _ => .books ..) fun _ => .of_same rfl rfl rfl) fun _ =>
          .bind (.lift (orderly_discard _)) fun _ => ?_
  cases outcome with
  | ok a => exact .pure a
  | error e => exact .throw e

section

variable {E E' : Engine} (hE : E.Alike C E')

include hE

theorem alike_invokeDelegate (delegate : ObjectRef) (arguments : List HostValue) :
    Alike (C.regime own) (invokeDelegate E delegate arguments)
      (invokeDelegate E' delegate arguments) := by
  refine .bind (orderly_readObject? delegate) fun o => ?_
  cases o with
  | none => exact orderly_failedCall _ _
  | some o =>
    dsimp only
    cases o.cls.invokeMethod? with
    | none => exact orderly_failedCall _ _
    | some m => exact hE.invoke _ _ _ _

theorem alike_evalAll (es : List Expr) : Alike (C.regime own) (evalAll E es) (evalAll E' es) := by
  induction es with
  | nil => exact .pure _
  | cons e rest ih =>
    exact .bind (hE.eval e) fun v => .bind (alike_keeping v.refs ih) fun _ => .pure _

theorem alike_evalSlots (es : List (String × Expr)) :
    Alike (C.regime own) (evalSlots E es) (evalSlots E' es) := by
  induction es with
  | nil => exact .pure _
  | cons e rest ih =>
    exact .bind (hE.eval e.2) fun v => .bind (alike_keeping v.refs ih) fun _ => .pure _

theorem alike_evalWith (e : Expr) {use use' : HostValue → Host HostValue}
    (h : ∀ v, Alike (C.regime own) (use v) (use' v)) :
    Alike (C.regime own) (evalWith E e use) (evalWith E' e use') :=
  .bind (hE.eval e) fun v => .bind (alike_keeping v.refs (h v)) fun _ =>
    .bind (.lift (orderly_discard _)) fun _ => .pure _

theorem alike_exprRun (e : Expr) : Alike (C.regime own) (e.run E) (e.run E') := by
  cases e with
  | literal l => exact .lift (orderly_hostLiteralBuild l)
  | argument i => exact .bind (.lift orderly_activation) fun _ => .pure _
  | slot name =>
    exact .bind (.lift orderly_activation) fun a =>
      .bind (orderly_targetBag a) fun _ => .pure _
  | target => exact .bind (.lift orderly_activation) fun _ => .pure _
  | className => exact .bind (.lift orderly_activation) fun _ => .pure _
  | targetClass =>
    refine .bind (.lift orderly_activation) fun a => ?_
    cases a.target with
    | none => exact .pure _
    | some o => exact .bind (.lift (orderly_readObject? o)) fun _ => .pure _
  | new slots =>
    exact .bind (alike_evalSlots hE slots) fun _ =>
      .bind (.lift orderly_activation) fun _ =>
        .bind (.lift (orderly_newObject _ _)) fun _ => .pure _
  | array element items =>
    exact .bind (alike_evalAll hE items) fun _ =>
      .bind (.lift (orderly_newArray _ _)) fun _ => .pure _
  | length e =>
    exact alike_evalWith hE e fun v => .bind (.lift (orderly_itemsOf v)) fun _ => .pure _
  | sum e =>
    exact alike_evalWith hE e fun v => .bind (.lift (orderly_itemsOf v)) fun _ => .pure _
  | add a b =>
    exact alike_evalWith hE a fun _ => alike_evalWith hE b fun _ => .pure _
  | invoke delegate arguments out =>
    refine alike_evalWith hE delegate fun v => ?_
    cases v.asObject? with
    | none => exact orderly_throwNamed _
    | some o =>
      exact .bind (alike_evalAll hE arguments) fun _ =>
        .bind (.lift (alike_invokeDelegate hE o _)) fun _ => orderly_takeResult _ _
  | callMethod object name arguments out =>
    refine alike_evalWith hE object fun v => ?_
    cases v.asObject? with
    | none => exact orderly_throwNamed _
    | some o =>
      refine .bind (alike_evalAll hE arguments) fun arguments =>
        .bind (.lift (orderly_readObject? o)) fun found => ?_
      dsimp only
      split
      · exact .bind (.lift (hE.invoke _ _ _ _)) fun _ => orderly_takeResult _ _
      · exact .bind (.lift (orderly_discard _)) fun _ => orderly_throwNamed _

/-! ## Statements -/

/-- A statement stores a value in an array. -/
def Stmt.fills : Stmt → Bool
  | setItem .. => true
  | _ => false

theorem alike_fireAll (arguments : List HostValue) (handlers : List ObjectRef) :
    Alike (C.regime own) (fireAll E arguments handlers) (fireAll E' arguments handlers) := by
  induction handlers with
  | nil => exact .pure _
  | cons h rest ih =>
    exact .bind (.lift (alike_invokeDelegate hE h arguments)) fun outcome =>
      .bind (orderly_takeResult none outcome) fun _ => ih

theorem alike_runOps (ops : List Op) : Alike (C.regime own) (runOps E ops) (runOps E' ops) := by
  refine .bind (alike_tryScript (hE.block ops)) fun outcome => ?_
  cases outcome with
  | ok _ => exact .pure _
  | error e =>
    cases e with
    | runtime v =>
      exact .bind (alike_holding v.refs (alike_exceptionOf hE.run v)) fun _ => .throw _
    | _ => exact orderly_throwNamed _

/-- A statement that fills no array, or any statement where arrays may be filled. -/
theorem alike_stmtRun (s : Stmt) (hs : s.fills = true → C.Fills) :
    Alike (C.regime true) (s.run E) (s.run E') := by
  cases s with
  | «return» e => exact .bind (hE.eval e) fun _ => .pure _
  | setSlot name e =>
    exact .bind (hE.eval e) fun v => .bind (.lift orderly_activation) fun a =>
      orderly_setTargetSlot a v.refs name v
  | setArgument i e =>
    refine .bind (hE.eval e) fun v => .bind (.lift orderly_activation) fun a => ?_
    dsimp only
    split
    · exact .bind (.lift (C.setArguments _)) fun _ =>
        .bind (.lift (orderly_discard _)) fun _ => .pure _
    · exact .bind (.lift (orderly_discard _)) fun _ => .pure _
  | setItem array i e =>
    have := hs rfl
    exact .bind (alike_evalWith hE array fun x => .bind (hE.eval e) fun v =>
      .bind (.lift (orderly_setItem x i v)) fun _ => .pure _) fun _ => .pure _
  | throw spec => exact .bind (.lift (orderly_build spec)) fun _ => .throw _
  | traceArguments =>
    exact .bind (.lift orderly_activation) fun _ =>
      .bind (orderly_mapM (fun v => .lift (orderly_showHost v)) _) fun _ =>
        .bind (.modify (fun _ _ => .books ..) fun _ => .of_same rfl rfl rfl) fun _ => .pure _
  | branch condition yes no =>
    exact .bind (alike_evalWith hE condition fun _ => .pure _) fun _ => hE.statements _
  | fire event arguments =>
    exact .bind (alike_evalAll hE arguments) fun arguments =>
      .bind (alike_holding _ (.bind (.lift orderly_activation) fun a =>
        .bind (orderly_targetBag a) fun b =>
          alike_holding _ (alike_fireAll hE arguments _))) fun _ => .pure _
  | machine ops => exact .bind (alike_runOps hE ops) fun _ => .pure _

theorem alike_runStatements (body : List Stmt) (hbody : ∀ s ∈ body, s.fills = true → C.Fills) :
    Alike (C.regime true) (runStatements E body) (runStatements E' body) := by
  induction body with
  | nil => exact .pure _
  | cons s rest ih =>
    refine .bind (alike_stmtRun hE s (hbody s List.mem_cons_self)) fun v => ?_
    cases v with
    | some v => exact .bind (.lift (orderly_settleBeside _)) fun _ => .pure _
    | none =>
      exact .bind (.lift orderly_settle) fun _ =>
        ih fun s hs => hbody s (List.mem_cons_of_mem _ hs)

/-! ## Methods -/

theorem alike_runDelegate (body : DelegateBody) :
    Alike (C.regime true) (runDelegate E body) (runDelegate E' body) := by
  cases body with
  | statements body => exact .bind (hE.statements body) fun _ => .pure _
  | script function signature =>
    refine .bind (.lift orderly_activation) fun a =>
      .bind (alike_holding _ (.lift (alike_callFunction hE.run _ _ _))) fun ⟨outcome, after⟩ => ?_
    cases outcome with
    | ok ret =>
      exact .bind (.lift (C.setArguments _)) fun _ =>
        .bind (.lift (orderly_discardReplaced _ _)) fun _ => .pure _
    | error e => exact .bind (.lift (orderly_discardReplaced _ _)) fun _ => .throw e

theorem alike_bodyRun (body : MethodBody) : Alike (C.regime true) (body.run E) (body.run E') := by
  cases body with
  | statements body => exact .bind (hE.statements body) fun _ => .pure _
  | delegateBody =>
    refine .bind (.lift orderly_activation) fun a =>
      .bind (orderly_optionMapM (fun o => .lift (orderly_readObject? o)) _) fun o => ?_
    split
    · exact alike_runDelegate hE _
    · exact orderly_throwCause _
  | subscribe => exact orderly_runSubscribe
  | unsubscribe => exact orderly_runUnsubscribe

theorem alike_methodInvoke (m : Method) (cls : Class) (target : Option ObjectRef)
    (arguments : List HostValue) :
    Alike (C.regime own) (m.invoke E cls target arguments) (m.invoke E' cls target arguments) := by
  unfold Method.invoke
  cases m.body with
  | some body => exact C.activate _ (alike_bodyRun hE body)
  | none =>
    refine .bind (orderly_optionMapM orderly_readObject? target) fun o => ?_
    split
    · exact .bind (orderly_hold _) fun _ =>
        .bind (alike_callTableMethod hE.run _ _ _) fun _ =>
          .bind (orderly_handOver _) fun _ =>
            .bind (orderly_discardReplaced _ _) fun _ => .pure _
    · exact orderly_failedCall _ _

end

end ScriptBridge
