import ScriptBridge.Proofs.Dispatch.Safety

/-!
# Which method a call selects

A dispatcher keeps one plan, and a call with as many arguments as the plan was made for runs by that
plan whenever its conversions read the arguments, also where an earlier candidate would accept them.
`Dispatcher.Selects` says what a call selects for every cache. A call that does not run by the plan
of an earlier one is prepared as if there had been none: the first candidate in declaration order
that accepts the arguments is taken.
-/

namespace ScriptBridge

/-! ## Resolving anew -/

/-- The candidates are tried in order, and none of them accepts the arguments. -/
inductive Refuses (arguments : List Value) : List Method → World → World → Prop where
  | nil (w : World) : Refuses arguments [] w w
  | cons {m : Method} {rest : List Method} {w w₁ w₂ : World}
      (first : tryCandidate m arguments w = (none, w₁)) (others : Refuses arguments rest w₁ w₂) :
      Refuses arguments (m :: rest) w w₂

/-- The first candidate that accepts the arguments, with its plan and the values it gives. -/
def FirstAccepts (candidates : List Method) (arguments : List Value) (w : World) (plan : Plan)
    (values : List HostValue) (w' : World) : Prop :=
  ∃ before after w₁, candidates = before ++ plan.method :: after ∧
    Refuses arguments before w w₁ ∧
    tryCandidate plan.method arguments w₁ = (some (plan, values), w')

theorem FirstAccepts.head {m : Method} {rest : List Method} {arguments : List Value}
    {w w' : World} {plan : Plan} {values : List HostValue} (hmethod : plan.method = m)
    (h : tryCandidate m arguments w = (some (plan, values), w')) :
    FirstAccepts (m :: rest) arguments w plan values w' := by
  subst hmethod
  exact ⟨[], rest, w, rfl, .nil w, h⟩

theorem FirstAccepts.tail {m : Method} {rest : List Method} {arguments : List Value}
    {w w₁ w' : World} {plan : Plan} {values : List HostValue}
    (hrefused : tryCandidate m arguments w = (none, w₁))
    (h : FirstAccepts rest arguments w₁ plan values w') :
    FirstAccepts (m :: rest) arguments w plan values w' := by
  obtain ⟨before, after, w₂, hsplit, hbefore, htry⟩ := h
  exact ⟨m :: before, after, w₂, by rw [hsplit, List.cons_append], .cons hrefused hbefore, htry⟩

/-- The plan of a candidate was made by matching the arguments. -/
theorem matchParameters_of_tryCandidate {m : Method} {arguments : List Value} {w w' : World}
    {plan : Plan} {values : List HostValue}
    (h : tryCandidate m arguments w = (some (plan, values), w')) :
    (matchParameters m arguments w).1 = some plan := by
  unfold tryCandidate at h
  cases hm : matchParameters m arguments w with | mk found w₁
  rw [bind_of_eq hm] at h
  cases found with
  | none => cases h
  | some p =>
    dsimp only at h
    cases hr : p.replay arguments w₁ with | mk r w₂
    rw [bind_of_eq hr] at h
    cases r <;> cases h
    rfl

/-- The plan of a candidate is for that candidate. -/
theorem tryCandidate_method {m : Method} {arguments : List Value} {w w' : World} {plan : Plan}
    {values : List HostValue} (hw : w.Sound)
    (h : tryCandidate m arguments w = (some (plan, values), w')) : plan.method = m := by
  obtain ⟨-, hplan⟩ := ensures_matchParameters m arguments w hw
  exact (hplan plan (matchParameters_of_tryCandidate h)).1.method

/-- Resolving takes the first candidate that accepts the arguments, and fails only if all refuse
them. -/
theorem resolve_first (candidates : List Method) (arguments : List Value) {w : World}
    (hw : w.Sound) (hdefaults : ∀ m ∈ candidates, m.HasDefaults w) :
    match resolve candidates arguments w with
    | (some (plan, values), w') => FirstAccepts candidates arguments w plan values w'
    | (none, w') => Refuses arguments candidates w w' := by
  induction candidates generalizing w with
  | nil => exact .nil w
  | cons m rest ih =>
    have hstep := tryCandidate_resolves arguments hw (hdefaults m List.mem_cons_self)
    unfold resolve
    cases hr : tryCandidate m arguments w with | mk found w₁
    rw [bind_of_eq hr]
    cases found with
    | some found => exact .head (tryCandidate_method hw hr) hr
    | none =>
      rw [hr] at hstep
      have hlater : w.Later [] w₁ := hstep
      have hrest := ih hlater.sound fun m hm =>
        (hdefaults m (List.mem_cons_of_mem _ hm)).later hlater
      dsimp only
      cases hrec : resolve rest arguments w₁ with | mk found w₂
      rw [hrec] at hrest
      cases found with
      | some => exact .tail hr hrest
      | none => exact .cons hr hrest

/-- What a call without a plan ends with: the first candidate that accepts the arguments, or the
error that there is none. -/
inductive Dispatcher.SelectsFirst (d : Dispatcher) (arguments : List Value) (w : World) :
    Except Cause (Plan × List HostValue) × World → Prop where
  | accepted {plan : Plan} {values : List HostValue} {w' : World}
      (first : FirstAccepts d.candidates arguments w plan values w') :
      d.SelectsFirst arguments w (.ok (plan, values), (hold plan.refs w').2)
  | refused {w' : World} (all : Refuses arguments d.candidates w w') :
      d.SelectsFirst arguments w (.error (.noOverload d.callable), w')

theorem resolveCall_selectsFirst {d : Dispatcher} (arguments : List Value) {w : World}
    (hw : w.Sound) (hdefaults : d.HasDefaults w) :
    d.SelectsFirst arguments w (resolveCall d arguments w) := by
  have h := resolve_first d.candidates arguments hw hdefaults
  unfold resolveCall
  cases hr : resolve d.candidates arguments w with | mk found w₁
  rw [bind_of_eq hr]
  rw [hr] at h
  cases found with
  | some => exact .accepted h
  | none => exact .refused h

/-! ## Why a replay fails -/

theorem extractRun_error {cs : List Conversion} {arguments : List Value} {position : Nat}
    {done : List HostValue} {w w' : World} {reason : ReplayError}
    (h : extractRun cs arguments position done w = (.error reason, w')) :
    ∃ position, reason = .invalid position := by
  induction cs generalizing arguments position done w with
  | nil => cases h
  | cons c cs ih =>
    unfold extractRun at h
    cases hr : c.extract (arguments.head?.getD .nil) w with | mk r w₁
    rw [bind_of_eq hr] at h
    cases r with
    | some => exact ih h
    | none =>
      cases h
      exact ⟨position, rfl⟩

theorem slotExtract_error {s : ArgumentSlot} {arguments : List Value} {w w' : World}
    {reason : ReplayError} (h : s.extract arguments w = (.error reason, w')) :
    ∃ position, reason = .invalid position := by
  unfold ArgumentSlot.extract at h
  cases hs : s.source with
  | single c =>
    rw [hs] at h
    dsimp only at h
    cases hr : c.extract ((arguments.drop s.offset).head?.getD .nil) w with | mk r w₁
    rw [bind_of_eq hr] at h
    cases r with
    | some => cases h
    | none =>
      cases h
      exact ⟨s.offset + 1, rfl⟩
  | run e cs =>
    rw [hs] at h
    dsimp only at h
    cases hr : extractRun cs (arguments.drop s.offset) (s.offset + 1) [] w with | mk r w₁
    rw [bind_of_eq hr] at h
    cases r with
    | ok => cases h
    | error =>
      cases h
      exact extractRun_error hr
  | emptyArray e =>
    rw [hs] at h
    cases h

theorem extractSlots_error {arguments : List Value} {slots : List ArgumentSlot}
    {done : List HostValue} {w w' : World} {reason : ReplayError}
    (h : extractSlots arguments slots done w = (.error reason, w')) :
    ∃ position, reason = .invalid position := by
  induction slots generalizing done w with
  | nil => cases h
  | cons s rest ih =>
    unfold extractSlots at h
    cases hr : s.extract arguments w with | mk r w₁
    rw [bind_of_eq hr] at h
    cases r with
    | ok => exact ih h
    | error =>
      cases h
      exact slotExtract_error hr

/-- A plan for another number of arguments is not tried at all. -/
theorem replay_of_ne {plan : Plan} {arguments : List Value}
    (h : arguments.length ≠ plan.argumentCount) (w : World) :
    plan.replay arguments w = (.error .argumentCount, w) := by
  unfold Plan.replay
  rw [if_pos (bne_iff_ne.mpr h)]
  rfl

theorem replay_ok {plan : Plan} {arguments : List Value} {w w' : World} {values : List HostValue}
    (h : plan.replay arguments w = (.ok values, w')) : arguments.length = plan.argumentCount :=
  Decidable.byContradiction fun hne => by
    rw [replay_of_ne hne] at h
    cases h

/-- A plan for this number of arguments fails only at an argument that cannot be read. -/
theorem replay_error {plan : Plan} {arguments : List Value} {w w' : World} {reason : ReplayError}
    (hcount : arguments.length = plan.argumentCount)
    (h : plan.replay arguments w = (.error reason, w')) :
    ∃ position, reason = .invalid position := by
  unfold Plan.replay at h
  rw [if_neg (fun hne => bne_iff_ne.mp hne hcount)] at h
  exact extractSlots_error h

/-! ## With the plan of an earlier call -/

/-- How a call comes to be prepared as if there had been no plan. -/
inductive Dispatcher.PassesOver (d : Dispatcher) (arguments : List Value) (w : World) :
    Option Plan → World → Prop where
  | unplanned : d.PassesOver arguments w none w
  | otherCount {plan : Plan} (count : arguments.length ≠ plan.argumentCount) :
      d.PassesOver arguments w (some plan) (unhold plan.refs w).2
  /-- What the attempt made is gone, and so is the plan. -/
  | unreadable {plan : Plan} {position : Nat} {w₁ : World}
      (count : arguments.length = plan.argumentCount)
      (replay : plan.replay arguments w = (.error (.invalid position), w₁))
      (others : ∀ only, d.candidates ≠ [only]) :
      d.PassesOver arguments w (some plan) (unhold plan.refs w₁).2

/-- What a call selects. -/
inductive Dispatcher.Selects (d : Dispatcher) (cached : Option Plan) (arguments : List Value)
    (w : World) : Except Cause (Plan × List HostValue) × World → Prop where
  /-- The plan of an earlier call reads the arguments. -/
  | replayed {plan : Plan} {values : List HostValue} {w' : World} (remembered : cached = some plan)
      (candidate : plan.method ∈ d.candidates) (count : arguments.length = plan.argumentCount)
      (replay : plan.replay arguments w = (.ok values, w')) (typed : w.Prepared plan values w') :
      d.Selects cached arguments w (.ok (plan, values), w')
  /-- It does not, and there is nothing else to try. -/
  | unreadable {plan : Plan} {only : Method} {position : Nat} {w₁ : World}
      (remembered : cached = some plan) (single : d.candidates = [only])
      (count : arguments.length = plan.argumentCount)
      (replay : plan.replay arguments w = (.error (.invalid position), w₁))
      (left : w.Later [] (unhold plan.refs w₁).2) :
      d.Selects cached arguments w
        (.error (.invalidArgument d.callable position), (unhold plan.refs w₁).2)
  /-- The call is prepared as if there had been no plan. -/
  | first {w' : World} (passed : d.PassesOver arguments w cached w') (left : w.Later [] w')
      (first : d.SelectsFirst arguments w' (prepare d none arguments w')) :
      d.Selects cached arguments w (prepare d none arguments w')

theorem prepare_of_replay {d : Dispatcher} {plan : Plan} {arguments : List Value} {w w₁ : World}
    {values : List HostValue} (h : plan.replay arguments w = (.ok values, w₁)) :
    prepare d (some plan) arguments w = (.ok (plan, values), w₁) := by
  show (plan.replay arguments >>= _) w = _
  rw [bind_of_eq h]
  rfl

theorem prepare_of_failed {d : Dispatcher} {plan : Plan} {arguments : List Value} {w w₁ : World}
    {reason : ReplayError} (h : plan.replay arguments w = (.error reason, w₁))
    (hothers : (∃ position, reason = .invalid position) → ∀ only, d.candidates ≠ [only]) :
    prepare d (some plan) arguments w = prepare d none arguments (unhold plan.refs w₁).2 := by
  show (plan.replay arguments >>= _) w = _
  rw [bind_of_eq h]
  cases reason with
  | argumentCount => rfl
  | invalid position =>
    have hothers := hothers ⟨position, rfl⟩
    show (unhold plan.refs >>= _) w₁ = _
    cases hcandidates : d.candidates with
    | nil => rfl
    | cons only rest =>
      cases rest with
      | nil => exact absurd hcandidates (hothers only)
      | cons => rfl

theorem prepare_of_single {d : Dispatcher} {plan : Plan} {arguments : List Value} {w w₁ : World}
    {position : Nat} {only : Method}
    (h : plan.replay arguments w = (.error (.invalid position), w₁))
    (hsingle : d.candidates = [only]) :
    prepare d (some plan) arguments w =
      (.error (.invalidArgument d.callable position), (unhold plan.refs w₁).2) := by
  show (plan.replay arguments >>= _) w = _
  rw [bind_of_eq h]
  show (unhold plan.refs >>= _) w₁ = _
  rw [hsingle]
  rfl

/-- Whatever plan a dispatcher has, its call selects as `Dispatcher.Selects` says. -/
theorem prepare_selects {d : Dispatcher} {cached : Option Plan} (arguments : List Value)
    {w : World} (hw : w.Sound) (hdefaults : d.HasDefaults w)
    (hcached : ∀ plan, cached = some plan → plan.Suits d) :
    d.Selects cached arguments w (prepare d cached arguments w) := by
  cases cached with
  | none =>
    exact .first .unplanned (.refl hw w.owns_nil) (resolveCall_selectsFirst arguments hw hdefaults)
  | some plan =>
    obtain ⟨hmem, hfits⟩ := hcached plan rfl
    have hreplay := replay_prepared hfits arguments hw (hdefaults _ hmem)
    cases hr : plan.replay arguments w with | mk r w₁
    rw [hr] at hreplay
    cases r with
    | ok values =>
      rw [prepare_of_replay hr]
      exact .replayed rfl hmem (replay_ok hr) hr hreplay
    | error reason =>
      have hlater : w.Later [] w₁ := hreplay
      have hleft := hlater.trans (unhold_later hlater.sound
        (hfits.refs_made ((hdefaults _ hmem).later hlater)))
      have hanew := resolveCall_selectsFirst arguments hleft.sound (hdefaults.later hleft)
      by_cases hcount : arguments.length = plan.argumentCount
      · obtain ⟨position, rfl⟩ := replay_error hcount hr
        by_cases hsingle : ∃ only, d.candidates = [only]
        · obtain ⟨only, hsingle⟩ := hsingle
          rw [prepare_of_single hr hsingle]
          exact .unreadable rfl hsingle hcount hr hleft
        · have hothers (only : Method) (h : d.candidates = [only]) : False := hsingle ⟨only, h⟩
          rw [prepare_of_failed hr fun _ => hothers]
          exact .first (.unreadable hcount hr hothers) hleft hanew
      · rw [replay_of_ne hcount] at hr
        cases hr
        rw [prepare_of_failed (replay_of_ne hcount w) fun ⟨_, h⟩ => nomatch h]
        exact .first (.otherCount hcount) hleft hanew

/-! ## The call -/

/-- What is left of a call once it is known what it selects. -/
def runSelected (E : Engine) (ref : DispatcherRef) (d : Dispatcher) (target : Option ObjectRef) :
    Except Cause (Plan × List HostValue) → Script Nat
  | .ok (plan, values) => finishDispatch E ref d plan target values
  | .error cause => raiseCause cause

/-- The target of a call is looked for whatever plan there is. -/
theorem dispatch_of_target {w : World} {ref : DispatcherRef} {d : Dispatcher}
    (hsession : w.session?.isSome)
    (hd : (collectReleased w).2.dispatchers.get? ref.index = some d) (E : Engine) :
    dispatch E ref w =
      match findTarget d (collectReleased w).2 with
      | .error r w' => .error r w'
      | .ok (target, first) w' =>
        runSelected E ref d target
          (prepare d d.plan (w'.machine.valuesFrom first) (takePlan ref w').2).1
          (prepare d d.plan (w'.machine.valuesFrom first) (takePlan ref w').2).2 := by
  have hnone : w.session?.isNone = false := by
    rw [← Option.not_isSome, hsession, Bool.not_true]
  unfold dispatch
  show (if w.session?.isNone = true then _ else _ : Script _) w = _
  rw [hnone, if_neg Bool.false_ne_true, lift_bind]
  generalize (collectReleased w).2 = w₁ at hd ⊢
  have hread : readDispatcher? ref w₁ = (some d, w₁) := by
    show (w₁.dispatchers.get? ref.index, w₁) = _
    rw [hd]
  rw [bind_of_ok (lift_of_eq hread)]
  dsimp only
  cases ht : findTarget d w₁ with
  | error r w₂ => exact bind_of_error ht
  | ok found w₂ =>
    obtain rfl := findTarget_ok ht
    have htake : takePlan ref w₂ = (d.plan, (takePlan ref w₂).2) := by rw [takePlan_eq hd]
    rw [bind_of_ok ht, bind_of_ok (lift_of_eq (show readMachine w₂ = (w₂.machine, w₂) from rfl)),
      bind_of_ok (lift_of_eq htake)]
    show _ = runSelected E ref d found.1
      (prepare d d.plan (w₂.machine.valuesFrom found.2) (takePlan ref w₂).2).1
      (prepare d d.plan (w₂.machine.valuesFrom found.2) (takePlan ref w₂).2).2
    cases hp : prepare d d.plan (w₂.machine.valuesFrom found.2) (takePlan ref w₂).2 with
    | mk prepared w₃ =>
      rw [bind_of_ok (lift_of_eq hp)]
      cases prepared <;> rfl

/-- A call of a dispatcher that remembers the plan of any earlier call. It fails for want of a
target whatever the plan is. Otherwise it runs the plan that is remembered if this is for as many
arguments and reads them; if it is but does not read them, and there is one candidate only, it fails
with the number of the argument; and in all other cases it does what the dispatcher does without a
plan, in the world that the attempt leaves: it runs the first candidate in declaration order that
accepts the arguments, and fails if none does. -/
theorem dispatch_selects {w : World} (hw : w.Sound) (ref : DispatcherRef) (d : Dispatcher)
    (hsession : w.session?.isSome)
    (hd : (collectReleased w).2.dispatchers.get? ref.index = some d)
    (hdefaults : d.HasDefaults w) (hplan : Remembered d d.plan) :
    match findTarget d (collectReleased w).2 with
    | .error r w' => ∀ E, dispatch E ref w = .error r w'
    | .ok (target, first) w₁ => ∃ r w',
      d.Selects d.plan (w₁.machine.valuesFrom first) (takePlan ref w₁).2 (r, w') ∧
      ∀ E, dispatch E ref w = runSelected E ref d target r w' := by
  have hcollect : w.Later [] (collectReleased w).2 := harmless_collectReleased w [] hw w.owns_nil
  have hdispatch := dispatch_of_target hsession hd
  cases ht : findTarget d (collectReleased w).2 with
  | error r w' =>
    intro E
    rw [hdispatch E, ht]
  | ok found w₁ =>
    obtain rfl := findTarget_ok ht
    generalize (collectReleased w).2 = w₁ at hd hcollect hdispatch ht
    have hunmade (r : Ref) (hr : (takePlan ref w₁).2.IsUnmade r) : w.IsUnmade r := by
      refine hcollect.unmade r ?_
      rw [takePlan_eq hd] at hr
      exact hr
    have hselects := prepare_selects (w₁.machine.valuesFrom found.2)
      (takePlan_sound hcollect.sound hd)
      (fun m hm p hp v hv r hr hu => hdefaults m hm p hp v hv r hr (hunmade r hu)) hplan.suits
    refine ⟨(prepare d d.plan _ _).1, (prepare d d.plan _ _).2, hselects, fun E => ?_⟩
    rw [hdispatch E, ht]

/-- The call with the next text runs by the plan of the call before. -/
theorem dispatch_selects_join : ∃ w',
    joinDispatcher.Selects (some joinPlan) [.text "next"] (takePlan ⟨0⟩ (joinWorld "next")).2
      (.ok (joinPlan, [.text "next", .int .i32 7, .object ⟨0⟩]), w') ∧
    ∀ E, dispatch E ⟨0⟩ (joinWorld "next") =
      finishDispatch E ⟨0⟩ joinDispatcher joinPlan none [.text "next", .int .i32 7, .object ⟨0⟩]
        w' := by
  obtain ⟨r, w', hselects, hdispatch⟩ : ∃ r w',
      joinDispatcher.Selects (some joinPlan) [.text "next"] (takePlan ⟨0⟩ (joinWorld "next")).2
        (r, w') ∧
      ∀ E, dispatch E ⟨0⟩ (joinWorld "next") = runSelected E ⟨0⟩ joinDispatcher none r w' :=
    dispatch_selects (joinWorld_sound "next") ⟨0⟩ joinDispatcher rfl rfl
      (joinDispatcher_hasDefaults _) joinPlan_remembered
  obtain ⟨w₁, hreplay⟩ : ∃ w₁, joinPlan.replay [.text "next"]
      (takePlan ⟨0⟩ (joinWorld "next")).2 =
        (.ok [.text "next", .int .i32 7, .object ⟨0⟩], w₁) := ⟨_, rfl⟩
  have hr : r = .ok (joinPlan, [.text "next", .int .i32 7, .object ⟨0⟩]) := by
    cases hselects with
    | replayed remembered _ _ replay =>
      cases remembered
      rw [hreplay] at replay
      cases replay
      rfl
    | unreadable remembered _ _ replay =>
      cases remembered
      rw [hreplay] at replay
      cases replay
    | first passed =>
      cases passed with
      | otherCount count => exact absurd rfl count
      | unreadable _ replay =>
        rw [hreplay] at replay
        cases replay
  rw [hr] at hselects hdispatch
  exact ⟨w', hselects, hdispatch⟩

/-! ### An overload that the plan of another hides -/

/-- Two overloads: a truth value, or anything. -/
def flagMethod : Method where
  name := "f"
  declaringType := "Demo.O"
  params := [⟨.bool, .input, none, false⟩]
  ret := .text
  body := some (.statements [])

def anythingMethod : Method := { flagMethod with params := [⟨.any, .input, none, false⟩] }

def flagPlan : Plan where
  method := flagMethod
  template := [.bool false]
  slots := [⟨0, 0, .single (.scalar .bool)⟩]
  outSlots := []
  returnsVoid := false
  argumentCount := 1

def anythingPlan : Plan :=
  { flagPlan with
    method := anythingMethod
    template := [.null]
    slots := [⟨0, 0, .single .any⟩] }

/-- The dispatcher of both, with a plan. -/
def overloaded (plan : Option Plan) : Dispatcher where
  name := "f"
  cls := { name := "Demo.O" }
  binding := .static
  candidates := [flagMethod, anythingMethod]
  plan := plan

/-- It is about to be called with a truth value. -/
def overloadedWorld (plan : Option Plan) : World where
  machine := {
    id := 0, registry := ⟨0⟩, globals := ⟨0⟩, appData := .session, stack := #[.boolean true]
    session := some { id := 0, options := {}, adapters := .build, objects := ⟨0⟩ } }
  dispatchers := Store.add {} (overloaded plan)

theorem overloaded_hasDefaults (plan : Option Plan) (w : World) :
    (overloaded plan).HasDefaults w := by
  intro m hm p hp v hv
  simp only [overloaded, List.mem_cons, List.not_mem_nil, or_false] at hm
  obtain rfl | rfl := hm
  · obtain rfl := List.mem_singleton.mp hp
    cases hv
  · obtain rfl := List.mem_singleton.mp hp
    cases hv

/-- After a call with a text, a call with a truth value runs the overload that takes anything,
although without a plan it runs the one that is declared first. -/
theorem overload_hidden_by_plan :
    Remembered (overloaded (some anythingPlan)) (some anythingPlan) ∧
    (∃ w', prepareDispatch ⟨0⟩ (overloadedWorld (some anythingPlan)) =
      .ok (overloaded (some anythingPlan), anythingPlan, none, [.bool true]) w') ∧
    (∃ w', prepareDispatch ⟨0⟩ (overloadedWorld none) =
      .ok (overloaded none, flagPlan, none, [.bool true]) w') ∧
    anythingPlan.method.params ≠ flagPlan.method.params := by
  refine ⟨?_, ⟨_, rfl⟩, ⟨_, rfl⟩, ?_⟩
  · exact .prepared .none (joinWorld_sound "x") (overloaded_hasDefaults _ _)
      (show prepare (overloaded (some anythingPlan)) none [.text "x"] (joinWorld "x") =
        (.ok (anythingPlan, [.text "x"]), _) from rfl)
  · intro h
    cases h

end ScriptBridge
