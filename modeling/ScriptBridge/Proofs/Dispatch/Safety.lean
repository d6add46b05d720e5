import ScriptBridge.Proofs.Dispatch.Replay

/-!
# Bodies are invoked with typed arguments

A dispatcher keeps the plan of an earlier call, made for other values in another world, so what
the plan of a dispatcher is like follows from the history of its calls only: `Remembered` is that
history. Every plan in it fits a candidate, and therefore every call either ends before a body is
invoked, or invokes the body of a candidate once, with arguments that are typed.
-/

namespace ScriptBridge

/-! ## Holding and letting go -/

/-- Holding other references changes nothing that is held in cells. -/
theorem World.later_of_held {w : World} (hw : w.Sound) (refs : List Ref) :
    w.Later [] { w with held := refs } :=
  .of_sameCells hw w.owns_nil (fun _ _ => rfl) (fun _ _ => rfl) (fun _ _ h => h) (fun _ h => h)
    (fun _ _ hr => .inl hr) (fun _ hd => .inl hd) (.refl _) hw.keyed

theorem hold_later {w : World} (hw : w.Sound) (refs : List Ref) : w.Later [] (hold refs w).2 :=
  w.later_of_held hw _

theorem unhold_later {w : World} (hw : w.Sound) {refs : List Ref}
    (hrefs : ∀ r ∈ refs, ¬ w.IsUnmade r) : w.Later [] (unhold refs w).2 := by
  have h : w.Later [] (handOver refs w).2 := w.later_of_held hw _
  exact h.trans (World.discard_later h.sound (World.owns_nil _) refs none
    fun r hr => ⟨fun hu => hrefs r hr (h.unmade r hu), List.not_mem_nil⟩)

/-! ## The plans of a dispatcher -/

/-- The default values of all candidates refer to cells that were made. -/
def Dispatcher.HasDefaults (d : Dispatcher) (w : World) : Prop :=
  ∀ m ∈ d.candidates, m.HasDefaults w

theorem Dispatcher.HasDefaults.later {d : Dispatcher} {w w₁ : World} (h : d.HasDefaults w)
    (hlater : w.Later [] w₁) : d.HasDefaults w₁ :=
  fun m hm => (h m hm).later hlater

/-- The plan fits one of the candidates. -/
def Plan.Suits (plan : Plan) (d : Dispatcher) : Prop :=
  plan.method ∈ d.candidates ∧ plan.Fits plan.method

/-- The plans a dispatcher can have: none, or the plan of an earlier call that was prepared in any
world, over any arguments, by the plan that was there before or anew. -/
inductive Remembered (d : Dispatcher) : Option Plan → Prop where
  | none : Remembered d none
  | prepared {cached : Option Plan} {arguments : List Value} {w w' : World} {plan : Plan}
      {values : List HostValue} (before : Remembered d cached) (sound : w.Sound)
      (defaults : d.HasDefaults w)
      (now : prepare d cached arguments w = (.ok (plan, values), w')) : Remembered d (some plan)

theorem Plan.Fits.refs_made {plan : Plan} {m : Method} (h : plan.Fits m) {w : World}
    (hdefaults : m.HasDefaults w) : ∀ r ∈ plan.refs, ¬ w.IsUnmade r := by
  intro r hr
  unfold Plan.refs at hr
  obtain hr | hr := List.mem_append.mp hr
  · obtain hr | hr := List.mem_append.mp hr
    · obtain ⟨c, -, rfl⟩ := List.mem_map.mp hr
      exact fun hu => hu
    · obtain ⟨v, hv, hr⟩ := List.mem_flatMap.mp hr
      obtain hrefs | ⟨p, hp, hd⟩ := h.fills.defaults v hv
      · rw [hrefs] at hr
        exact absurd hr List.not_mem_nil
      · exact hdefaults p hp v hd r hr
  · obtain ⟨s, -, hr⟩ := List.mem_flatMap.mp hr
    obtain ⟨c, -, rfl⟩ := List.mem_map.mp hr
    exact fun hu => hu

/-- What preparing a call ends with. -/
def World.PreparesFor (w : World) (d : Dispatcher)
    (r : Except Cause (Plan × List HostValue) × World) : Prop :=
  match r.1 with
  | .ok (plan, values) => plan.Suits d ∧ w.Prepared plan values r.2
  | .error _ => w.Later [] r.2

theorem World.PreparesFor.after {w w₁ : World} {d : Dispatcher}
    {r : Except Cause (Plan × List HostValue) × World} (h : w₁.PreparesFor d r)
    (hlater : w.Later [] w₁) : w.PreparesFor d r := by
  obtain ⟨outcome, w₂⟩ := r
  cases outcome with
  | error cause => exact hlater.trans h
  | ok prepared => exact ⟨h.1, h.2.after hlater⟩

theorem resolveCall_prepares {d : Dispatcher} (arguments : List Value) {w : World} (hw : w.Sound)
    (hdefaults : d.HasDefaults w) : w.PreparesFor d (resolveCall d arguments w) := by
  have h := resolve_resolves d.candidates arguments hw hdefaults
  unfold resolveCall
  cases hr : resolve d.candidates arguments w with | mk found w₁
  rw [bind_of_eq hr]
  rw [hr] at h
  cases found with
  | none => exact h
  | some found =>
    obtain ⟨hmem, hfits, hprepared⟩ := h
    have hhold := hold_later hprepared.later.sound found.1.refs
    exact ⟨⟨hmem, hfits⟩, hprepared.later.trans hhold,
      hprepared.typed.later hhold.session (fun _ _ => rfl) fun _ ho => ho⟩

theorem prepare_prepares {d : Dispatcher} {cached : Option Plan} (arguments : List Value)
    {w : World} (hw : w.Sound) (hdefaults : d.HasDefaults w)
    (hcached : ∀ plan, cached = some plan → plan.Suits d) :
    w.PreparesFor d (prepare d cached arguments w) := by
  cases cached with
  | none => exact resolveCall_prepares arguments hw hdefaults
  | some plan =>
    obtain ⟨hmem, hfits⟩ := hcached plan rfl
    have h := replay_prepared hfits arguments hw (hdefaults _ hmem)
    unfold prepare
    dsimp only
    cases hr : plan.replay arguments w with | mk r w₁
    rw [bind_of_eq hr]
    rw [hr] at h
    cases r with
    | ok values => exact ⟨⟨hmem, hfits⟩, h⟩
    | error reason =>
      have hlater : w.Later [] w₁ := h
      have hunhold := hlater.trans (unhold_later hlater.sound
        (hfits.refs_made ((hdefaults _ hmem).later hlater)))
      dsimp only
      cases hu : unhold plan.refs w₁ with | mk u w₂
      rw [bind_of_eq hu]
      rw [hu] at hunhold
      have hanew : w.PreparesFor d (resolveCall d arguments w₂) :=
        (resolveCall_prepares arguments hunhold.sound (hdefaults.later hunhold)).after hunhold
      cases reason with
      | argumentCount => exact hanew
      | invalid position =>
        cases hcandidates : d.candidates with
        | nil => exact hanew
        | cons only rest =>
          cases rest with
          | nil => exact hunhold
          | cons => exact hanew

/-- Every plan of a dispatcher fits one of its candidates. -/
theorem Remembered.suits {d : Dispatcher} {cached : Option Plan} (h : Remembered d cached) :
    ∀ plan, cached = some plan → plan.Suits d := by
  induction h with
  | none => exact fun _ h => nomatch h
  | @prepared cached arguments w w' plan values before sound defaults now ih =>
    have h := prepare_prepares arguments sound defaults ih
    rw [now] at h
    intro plan hplan
    cases hplan
    exact h.1

/-! ## From the call to the invocation -/

theorem raiseException_error {α : Type} (e : Exception) (w : World) :
    ∃ r w', (raiseException e : Script α) w = .error r w' := by
  unfold raiseException
  rw [lift_bind, lift_bind, lift_bind]
  exact ⟨_, _, rfl⟩

theorem raiseCause_error {α : Type} (cause : Cause) (w : World) :
    ∃ r w', (raiseCause cause : Script α) w = .error r w' := by
  unfold raiseCause
  rw [lift_bind]
  exact raiseException_error _ _

theorem raiseCause_ne_ok {α : Type} (cause : Cause) (w : World) {a : α} {w' : World} :
    (raiseCause cause : Script α) w ≠ .ok a w' := by
  intro h
  obtain ⟨r, w₁, he⟩ := raiseCause_error (α := α) cause w
  rw [he] at h
  cases h

/-- Finding the target of a call changes nothing, unless it fails. -/
theorem findTarget_ok {d : Dispatcher} {w w' : World} {found : Option ObjectRef × Int}
    (h : findTarget d w = .ok found w') : w' = w := by
  unfold findTarget at h
  split at h
  · cases h
    rfl
  · cases hd : d.bound with
    | some o =>
      rw [hd] at h
      cases h
      rfl
    | none =>
      rw [hd] at h
      dsimp only at h
      rw [lift_bind, lift_bind] at h
      cases ho : (fittingObject? (valueAt 1 w).1 (.named d.cls.name) (valueAt 1 w).2).1 with
      | some o =>
        rw [ho] at h
        cases h
        rfl
      | none =>
        rw [ho] at h
        exact absurd h (raiseCause_ne_ok _ _)

/-- Taking the plan out of a dispatcher. -/
theorem takePlan_eq {w : World} {ref : DispatcherRef} {d : Dispatcher}
    (hd : w.dispatchers.get? ref.index = some d) :
    takePlan ref w = (d.plan, { w with
      dispatchers := w.dispatchers.modify ref.index ({ · with plan := none })
      held := (d.plan.map Plan.refs).getD [] ++ w.held }) := by
  have hread : (readDispatcher? ref w) = (some d, w) := by
    show (w.dispatchers.get? ref.index, w) = _
    rw [hd]
  unfold takePlan
  rw [bind_of_eq hread]
  rfl

/-- What is left in the cells after a plan was taken was there before. -/
theorem takePlan_cellRefs {w : World} {ref : DispatcherRef} {d : Dispatcher}
    (hd : w.dispatchers.get? ref.index = some d) (c : Ref) :
    ∀ r ∈ (takePlan ref w).2.cellRefs c, r ∈ w.cellRefs c := by
  rw [takePlan_eq hd]
  intro r hr
  cases c with
  | dispatcher d' =>
    have hr : r ∈ (((w.dispatchers.modify ref.index ({ · with plan := none })).get?
      d'.index).map Dispatcher.refs).getD [] := hr
    rw [Store.get?_modify] at hr
    show r ∈ ((w.dispatchers.get? d'.index).map Dispatcher.refs).getD []
    split at hr
    · rename_i hi
      rw [← hi, hd] at hr ⊢
      have hr : r ∈ d.cls.refs ++ d.candidates.flatMap Method.refs ++
        (d.bound.map Ref.object).toList ++ [] := hr
      rw [List.append_nil] at hr
      exact List.mem_append_left _ hr
    · exact hr
  | _ => exact hr

theorem takePlan_sound {w : World} (hw : w.Sound) {ref : DispatcherRef} {d : Dispatcher}
    (hd : w.dispatchers.get? ref.index = some d) : (takePlan ref w).2.Sound where
  dropped := by
    rw [takePlan_eq hd]
    exact hw.dropped
  held c r hr := by
    have hheld := hw.held c r (takePlan_cellRefs hd c r hr)
    rw [takePlan_eq hd]
    exact hheld
  exposed := by
    rw [takePlan_eq hd]
    exact hw.exposed
  keyed := by
    rw [takePlan_eq hd]
    exact hw.keyed

/-- Running a prepared call depends on the engine by one invocation only. -/
theorem runPlan_eq {E E' : Engine} (ref : DispatcherRef) (d : Dispatcher) (plan : Plan)
    (target : Option ObjectRef) (values : List HostValue) {w : World}
    (h : E.invoke plan.method d.cls target values (hold (target.map Ref.object).toList w).2 =
      E'.invoke plan.method d.cls target values (hold (target.map Ref.object).toList w).2) :
    runPlan E ref d plan target values w = runPlan E' ref d plan target values w := by
  unfold runPlan
  cases hhold : hold (target.map Ref.object).toList w with | mk u w₁
  rw [hhold] at h
  dsimp only
  rw [bind_of_eq hhold, bind_of_eq hhold]
  cases hinvoke : E.invoke plan.method d.cls target values w₁ with | mk r w₂
  rw [bind_of_eq hinvoke, bind_of_eq (h.symm.trans hinvoke)]

/-- The part of a call before its body is invoked. -/
def prepareDispatch (ref : DispatcherRef) :
    Script (Dispatcher × Plan × Option ObjectRef × List HostValue) := do
  if (← get).session?.isNone then raiseCause noSession
  let _ ← collectReleased
  match ← readDispatcher? ref with
  | none => raiseCause noSession
  | some d =>
    let (target, first) ← findTarget d
    let arguments := (← readMachine).valuesFrom first
    match ← prepare d (← takePlan ref) arguments with
    | .error cause => raiseCause cause
    | .ok (plan, values) => return (d, plan, target, values)

/-- The part of a call from the invocation of its body on. -/
def finishDispatch (E : Engine) (ref : DispatcherRef) (d : Dispatcher) (plan : Plan)
    (target : Option ObjectRef) (values : List HostValue) : Script Nat := do
  match ← runPlan E ref d plan target values with
  | .ok n => return n
  | .error e => raiseFailure e

theorem raiseCause_bind {α β : Type} (cause : Cause) (f : α → Script β) :
    (raiseCause cause >>= f) = (raiseCause cause : Script β) := by
  funext w
  obtain ⟨r, w₁, he⟩ := raiseCause_error (α := α) cause w
  rw [bind_of_error he]
  unfold raiseCause raiseException at he ⊢
  rw [lift_bind, lift_bind, lift_bind, lift_bind] at he ⊢
  cases he
  rfl

theorem dispatch_eq (E : Engine) (ref : DispatcherRef) :
    dispatch E ref = (do
      let (d, plan, target, values) ← prepareDispatch ref
      finishDispatch E ref d plan target values) := by
  unfold dispatch prepareDispatch
  rw [bind_assoc]
  refine bind_congr fun w => ?_
  split
  · rw [bind_assoc]
    exact (raiseCause_bind _ _).trans (raiseCause_bind _ _).symm
  · rw [bind_assoc]
    refine bind_congr fun _ => ?_
    rw [bind_assoc]
    refine bind_congr fun d => ?_
    cases d with
    | none => exact (raiseCause_bind _ _).symm
    | some d =>
      dsimp only
      rw [bind_assoc]
      refine bind_congr fun found => ?_
      rw [bind_assoc]
      refine bind_congr fun m => ?_
      rw [bind_assoc]
      refine bind_congr fun cached => ?_
      rw [bind_assoc]
      refine bind_congr fun prepared => ?_
      cases prepared with
      | error cause => exact (raiseCause_bind _ _).symm
      | ok prepared => exact (pure_bind _ _).symm

/-- What has happened when a call is prepared. -/
theorem prepareDispatch_ok {ref : DispatcherRef} {w w₁ : World} {d : Dispatcher} {plan : Plan}
    {target : Option ObjectRef} {values : List HostValue}
    (h : prepareDispatch ref w = .ok (d, plan, target, values) w₁) :
    (collectReleased w).2.dispatchers.get? ref.index = some d ∧ ∃ first,
      findTarget d (collectReleased w).2 = .ok (target, first) (collectReleased w).2 ∧
      prepare d d.plan ((collectReleased w).2.machine.valuesFrom first)
        (takePlan ref (collectReleased w).2).2 = (.ok (plan, values), w₁) := by
  unfold prepareDispatch at h
  cases hs : w.session?.isNone with
  | true =>
    have h : (if w.session?.isNone = true then _ else _ : Script _) w = _ := h
    rw [hs, if_pos rfl, raiseCause_bind] at h
    exact absurd h (raiseCause_ne_ok _ _)
  | false =>
    have h : (if w.session?.isNone = true then _ else _ : Script _) w = _ := h
    rw [hs, if_neg Bool.false_ne_true, lift_bind] at h
    generalize (collectReleased w).2 = w₂ at h ⊢
    have hread : readDispatcher? ref w₂ = (w₂.dispatchers.get? ref.index, w₂) := rfl
    rw [bind_of_ok (lift_of_eq hread)] at h
    cases hd : w₂.dispatchers.get? ref.index with
    | none =>
      rw [hd] at h
      exact absurd h (raiseCause_ne_ok _ _)
    | some d' =>
      rw [hd] at h
      cases ht : findTarget d' w₂ with
      | error r w₃ =>
        dsimp only at h
        rw [bind_of_error ht] at h
        cases h
      | ok found w₃ =>
        obtain rfl := findTarget_ok ht
        dsimp only at h
        have hmachine : readMachine w₃ = (w₃.machine, w₃) := rfl
        have htake : takePlan ref w₃ = (d'.plan, (takePlan ref w₃).2) := by rw [takePlan_eq hd]
        rw [bind_of_ok ht, bind_of_ok (lift_of_eq hmachine),
          bind_of_ok (lift_of_eq htake)] at h
        cases hp : prepare d' d'.plan (w₃.machine.valuesFrom found.2) (takePlan ref w₃).2 with
        | mk prepared w₄ =>
          rw [bind_of_ok (lift_of_eq hp)] at h
          cases prepared with
          | error cause => exact absurd h (raiseCause_ne_ok _ _)
          | ok prepared =>
            cases h
            exact ⟨rfl, found.2, ht, hp⟩

theorem finishDispatch_eq {E E' : Engine} (ref : DispatcherRef) (d : Dispatcher) (plan : Plan)
    (target : Option ObjectRef) (values : List HostValue) {w : World}
    (h : E.invoke plan.method d.cls target values (hold (target.map Ref.object).toList w).2 =
      E'.invoke plan.method d.cls target values (hold (target.map Ref.object).toList w).2) :
    finishDispatch E ref d plan target values w = finishDispatch E' ref d plan target values w := by
  unfold finishDispatch
  rw [lift_bind, lift_bind, runPlan_eq ref d plan target values h]

/-- A prepared call has typed arguments. -/
theorem prepareDispatch_typed {ref : DispatcherRef} {w w₁ : World} {d : Dispatcher} {plan : Plan}
    {target : Option ObjectRef} {values : List HostValue} (hw : w.Sound)
    (hd : ∀ d, w.dispatchers.get? ref.index = some d → d.HasDefaults w ∧ Remembered d d.plan)
    (h : prepareDispatch ref w = .ok (d, plan, target, values) w₁) :
    w.dispatchers.get? ref.index = some d ∧ plan.Suits d ∧ w₁.Sound ∧
      w.machine.SessionLater w₁.machine ∧
      w₁.Typed (fun o => w.objects.next ≤ o.index) plan values := by
  obtain ⟨hfound, first, -, hp⟩ := prepareDispatch_ok h
  have hcollect : w.Later [] (collectReleased w).2 := harmless_collectReleased w [] hw w.owns_nil
  generalize (collectReleased w).2 = w₂ at hfound hp hcollect
  obtain ⟨hdefaults, hremembered⟩ := hd d (hcollect.dispatchers _ _ hfound)
  have htaken := takePlan_sound hcollect.sound hfound
  have hsame := takePlan_eq hfound
  have hmachine : (takePlan ref w₂).2.machine = w₂.machine := by rw [hsame]
  have hunmade (r : Ref) (hr : (takePlan ref w₂).2.IsUnmade r) : w.IsUnmade r := by
    refine hcollect.unmade r ?_
    rw [hsame] at hr
    exact hr
  have hprepares := prepare_prepares (w₂.machine.valuesFrom first) htaken
    (fun m hm p hp v hv r hr hu => hdefaults m hm p hp v hv r hr (hunmade r hu)) hremembered.suits
  rw [hp] at hprepares
  obtain ⟨hsuits, hprepared⟩ := hprepares
  have hsession := hprepared.later.session
  rw [hmachine] at hsession
  exact ⟨hcollect.dispatchers _ _ hfound, hsuits, hprepared.later.sound,
    hcollect.session.trans hsession,
    hprepared.typed.later (.refl _) (fun _ _ => rfl) fun o => hunmade (.object o)⟩

/-- The world in which the body of a prepared call is invoked: the target is held. -/
def World.atInvocation (w : World) (target : Option ObjectRef) : World :=
  (hold (target.map Ref.object).toList w).2

/-- A call ends before a body is invoked, whatever the engine, or it invokes the body of a
candidate once: its outcome depends on the engine by this invocation only. One entry for each
parameter reaches the body. The entries that come from arguments of the script conform to the types
of their parameters, and the arrays among them that this call made hold conforming items; the
others are defaults, values of outputs, or new empty arrays of variadic parameters. -/
theorem dispatch_invokes_typed {w : World} (hw : w.Sound) (ref : DispatcherRef)
    (hd : ∀ d, w.dispatchers.get? ref.index = some d → d.HasDefaults w ∧ Remembered d d.plan) :
    match prepareDispatch ref w with
    | .error r w₁ => ∀ E, dispatch E ref w = .error r w₁
    | .ok (d, plan, target, values) w₁ =>
      w.dispatchers.get? ref.index = some d ∧ plan.method ∈ d.candidates ∧
      (w₁.atInvocation target).Typed (fun o => w.objects.next ≤ o.index) plan values ∧
      (∀ o, (w₁.atInvocation target).Exposes o → o.index < w.objects.next) ∧
      (∀ E, dispatch E ref w = finishDispatch E ref d plan target values w₁) ∧
      ∀ E E' : Engine,
        E.invoke plan.method d.cls target values (w₁.atInvocation target) =
          E'.invoke plan.method d.cls target values (w₁.atInvocation target) →
        dispatch E ref w = dispatch E' ref w := by
  cases h : prepareDispatch ref w with
  | error r w₁ =>
    intro E
    rw [dispatch_eq]
    exact bind_of_error h
  | ok found w₁ =>
    obtain ⟨d, plan, target, values⟩ := found
    obtain ⟨hfound, ⟨hmem, -⟩, hsound, hsession, htyped⟩ := prepareDispatch_typed hw hd h
    have hhold := hold_later hsound (target.map Ref.object).toList
    have hfinish (E : Engine) :
        dispatch E ref w = finishDispatch E ref d plan target values w₁ := by
      rw [dispatch_eq]
      exact bind_of_ok h
    refine ⟨hfound, hmem, htyped.later hhold.session (fun _ _ => rfl) fun _ ho => ho,
      fun o ho => ?_, hfinish, fun E E' hE => ?_⟩
    · have ho := (World.exposes_iff (hsession.trans hhold.session) o).mp ho
      exact Nat.lt_of_not_le (hw.exposed o ho)
    · rw [hfinish, hfinish, finishDispatch_eq ref d plan target values hE]

/-! ### A call by the plan of an earlier one -/

/-- A method with a plain parameter, one with a default, and a variadic one. -/
def joinMethod : Method where
  name := "join"
  declaringType := "Texts"
  params := [⟨.text, .input, none, false⟩, ⟨.int .i32, .input, some (.int .i32 7), false⟩,
    ⟨.array .text, .input, none, true⟩]
  ret := .void
  body := some (.statements [])

/-- Its plan for a single text. -/
def joinPlan : Plan where
  method := joinMethod
  template := [.null, .int .i32 7, .null]
  slots := [⟨0, 0, .single (.scalar .text)⟩, ⟨2, 1, .emptyArray .text⟩]
  outSlots := []
  returnsVoid := true
  argumentCount := 1

def joinDispatcher : Dispatcher where
  name := "join"
  cls := { name := "Texts" }
  binding := .static
  candidates := [joinMethod]
  plan := some joinPlan

/-- A call of the dispatcher with one text is about to run. -/
def joinWorld (argument : String) : World where
  machine := {
    id := 0, registry := ⟨0⟩, globals := ⟨0⟩, appData := .session, stack := #[.text argument]
    session := some { id := 0, options := {}, adapters := .build, objects := ⟨0⟩ } }
  dispatchers := Store.add {} joinDispatcher

theorem joinWorld_dispatcher (argument : String) {i : Nat} {d : Dispatcher}
    (h : (joinWorld argument).dispatchers.get? i = some d) : d = joinDispatcher := by
  have h : (Store.add {} joinDispatcher).get? i = some d := h
  rw [Store.get?_add] at h
  split at h
  · exact (Option.some.inj h).symm
  · rw [Store.get?_eq_none _ (Nat.zero_le i)] at h
    cases h

theorem joinWorld_sound (argument : String) : (joinWorld argument).Sound where
  dropped _ h := absurd h List.not_mem_nil
  held c r hr := by
    cases c with
    | dispatcher d =>
      have hr : r ∈ (((joinWorld argument).dispatchers.get? d.index).map
        Dispatcher.refs).getD [] := hr
      cases hd : (joinWorld argument).dispatchers.get? d.index with
      | none =>
        rw [hd] at hr
        exact absurd hr List.not_mem_nil
      | some d' =>
        obtain rfl := joinWorld_dispatcher argument hd
        rw [hd] at hr
        exact absurd hr List.not_mem_nil
    | handle h => exact absurd hr List.not_mem_nil
    | table t => exact absurd hr (Store.not_mem_refs_empty t.index Table.refs r)
    | function f => exact absurd hr (Store.not_mem_refs_empty f.index Function.refs r)
    | userdata u => exact absurd hr (Store.not_mem_refs_empty u.index Userdata.refs r)
    | object o => exact absurd hr (Store.not_mem_refs_empty o.index HostObject.refs r)
    | cell c => exact absurd hr (Store.not_mem_refs_empty c.index Cell.refs r)
  exposed o ho := by
    obtain ⟨s, id, hs, ho⟩ := ho
    cases hs
    cases ho
  keyed s hs := by
    cases hs
    exact Catalog.isKeyed_initial

theorem joinDispatcher_hasDefaults (w : World) : joinDispatcher.HasDefaults w := by
  intro m hm p hp v hv r hr
  obtain rfl := List.mem_singleton.mp hm
  simp only [joinMethod, List.mem_cons, List.not_mem_nil, or_false] at hp
  obtain rfl | rfl | rfl := hp
  · cases hv
  · cases hv
    exact absurd hr List.not_mem_nil
  · cases hv

/-- The plan was made by a call with another text. -/
theorem joinPlan_remembered : Remembered joinDispatcher (some joinPlan) :=
  .prepared .none (joinWorld_sound "first") (joinDispatcher_hasDefaults _)
    (show prepare joinDispatcher none [.text "first"] (joinWorld "first") =
      (.ok (joinPlan, [.text "first", .int .i32 7, .object ⟨0⟩]), _) from rfl)

/-- The plan gives typed arguments for the next text. -/
theorem dispatch_invokes_typed_join :
    ∃ w₁, prepareDispatch ⟨0⟩ (joinWorld "next") =
        .ok (joinDispatcher, joinPlan, none, [.text "next", .int .i32 7, .object ⟨0⟩]) w₁ ∧
      (w₁.atInvocation none).Typed (fun o => 0 ≤ o.index) joinPlan
        [.text "next", .int .i32 7, .object ⟨0⟩] := by
  have htyped := dispatch_invokes_typed (joinWorld_sound "next") ⟨0⟩ fun d hd => by
    obtain rfl := joinWorld_dispatcher "next" hd
    exact ⟨joinDispatcher_hasDefaults _, joinPlan_remembered⟩
  obtain ⟨w₁, hprepare⟩ : ∃ w₁, prepareDispatch ⟨0⟩ (joinWorld "next") =
      .ok (joinDispatcher, joinPlan, none, [.text "next", .int .i32 7, .object ⟨0⟩]) w₁ :=
    ⟨_, rfl⟩
  rw [hprepare] at htyped
  exact ⟨w₁, hprepare, htyped.2.2.1⟩

end ScriptBridge
