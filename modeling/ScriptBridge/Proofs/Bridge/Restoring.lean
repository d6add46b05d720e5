import ScriptBridge.Proofs.Bridge.Adapters

/-!
# Arguments after a failed call

A method that runs a script may fail: the script raises, or a result does not convert. A delegate
calls its function with the arguments put aside, so those of the caller are as they were. An
interface made from a table reads results into the arguments of the caller, and a result that does
not convert ends that; what was read before it stays.

1. `readOutputs_error`: outputs are read in order up to the one that fails.
2. `Method.Stops`: where the reading of all results ends, and with which arguments.
3. `invoke_delegate_error`, `leaves_invoke_table`: the arguments after a failed call.
-/

namespace ScriptBridge

variable {w w' w₁ w₂ : World} {m : Method} {arguments arguments' : List HostValue}
  {results : List Value} {e : Failure}

/-! ## Outputs -/

/-- Whatever reading comes to, the arguments after those of its parameters are as they were. -/
theorem drop_readOutputs {params : List Param} {i : Nat}
    (hlength : i + params.length ≤ arguments.length) {outcome : Except Failure Unit}
    (h : readOutputs params i results arguments w = ((outcome, arguments'), w')) :
    arguments'.drop (i + params.length) = arguments.drop (i + params.length) := by
  induction params generalizing i results arguments w with
  | nil =>
    cases h
    rfl
  | cons p params ih =>
    rw [List.length_cons] at hlength ⊢
    have hi : i < arguments.length := by omega
    have hplace : i + (params.length + 1) = i + 1 + params.length := by omega
    rw [hplace]
    by_cases hmode : p.mode = .input
    · rw [readOutputs_input hmode] at h
      exact ih (by omega) h
    · cases hresult : convertResult p.type results.head? w with
      | error e w₁ =>
        rw [readOutputs_failing hmode params hi hresult] at h
        cases h
        rfl
      | ok v w₁ =>
        rw [readOutputs_output hmode params hi hresult] at h
        rw [ih (by rw [List.length_set]; omega) h]
        exact List.drop_set_of_lt (by omega)

/-- Reading that fails has read the outputs up to one whose result does not convert. -/
theorem readOutputs_error {params : List Param} {i k : Nat}
    (hlength : i + params.length ≤ arguments.length)
    (h : readOutputs params i (results.drop k) arguments w = ((.error e, arguments'), w')) :
    ∃ n p values w₁, params[n]? = some p ∧ p.mode ≠ .input ∧
      TakenInOrder results k (outputPlaces (params.take n) (arguments.drop i)) w values w₁ ∧
      readOutputs (params.take n) i (results.drop k) arguments w = ((.ok (), arguments'), w₁) ∧
      convertResult p.type results[k + outputsBefore params n]? w₁ = .error e w' := by
  -- What fails is the result of the first parameter, or the reading of the rest does, from the next
  -- parameter on and, behind an output, from the next result on.
  induction params generalizing i k arguments w with
  | nil => cases h
  | cons p params ih =>
    rw [List.length_cons] at hlength
    have hi : i < arguments.length := by omega
    by_cases hmode : p.mode = .input
    · rw [readOutputs_input hmode] at h
      obtain ⟨n, q, values, w₁, hq, houtput, htaken, hread, hfailed⟩ := ih (by omega) h
      refine ⟨n + 1, q, values, w₁, hq, houtput, ?_, ?_, ?_⟩
      · rw [List.take_succ_cons, outputPlaces_input hmode _ hi]
        exact htaken
      · rw [List.take_succ_cons, readOutputs_input hmode]
        exact hread
      · rw [outputsBefore_input hmode]
        exact hfailed
    · cases hresult : convertResult p.type (results.drop k).head? w with
      | error e' w₁ =>
        rw [readOutputs_failing hmode params hi hresult] at h
        cases h
        rw [List.head?_drop] at hresult
        exact ⟨0, p, [], w, rfl, hmode, .done k w, rfl, hresult⟩
      | ok v w₁ =>
        rw [readOutputs_output hmode params hi hresult, List.tail_drop] at h
        obtain ⟨n, q, values, w₂, hq, houtput, htaken, hread, hfailed⟩ :=
          ih (by rw [List.length_set]; omega) h
        rw [List.drop_set_of_lt (Nat.lt_succ_self i)] at htaken
        refine ⟨n + 1, q, v :: values, w₂, hq, houtput, ?_, ?_, ?_⟩
        · rw [List.take_succ_cons, outputPlaces_output hmode _ hi]
          rw [List.head?_drop] at hresult
          exact .next hresult htaken
        · rw [List.take_succ_cons, readOutputs_output hmode _ hi hresult, List.tail_drop]
          exact hread
        · rw [outputsBefore_output hmode, ← Nat.add_assoc, Nat.add_right_comm]
          exact hfailed

/-! ## All results -/

/-- The method with only the first parameters. -/
def Method.upTo (m : Method) (n : Nat) : Method := { m with params := m.params.take n }

/-- The reading of results fails, with some arguments. Either the return value does not convert, and
they are as they were; or the result for a parameter does not convert, once the method with only the
parameters before it has given them. -/
inductive Method.Stops (m : Method) (results : List Value) (arguments : List HostValue) (w : World)
    (e : Failure) : List HostValue → Prop
  | returned {w₁ : World} (returns : m.ret ≠ .void)
    (failed : convertResult m.ret results[0]? w = .error e w₁) :
    Stops m results arguments w e arguments
  | output {n : Nat} {p : Param} {ret : HostValue} {values arguments' : List HostValue}
    {w₁ w₂ : World} (param : m.params[n]? = some p) (mode : p.mode ≠ .input)
    (taken : TakenInOrder results 0 ((m.upTo n).places arguments) w values w₁)
    (gives : (m.upTo n).Gives arguments values ret arguments')
    (rest : arguments'.drop n = arguments.drop n)
    (failed : convertResult p.type
      results[(if m.ret = .void then 0 else 1) + outputsBefore m.params n]? w₁ = .error e w₂) :
    Stops m results arguments w e arguments'

/-- Inputs are as they were. -/
theorem Method.Stops.inputs (h : m.Stops results arguments w e arguments') {i : Nat} {p : Param}
    (hp : m.params[i]? = some p) (hmode : p.mode = .input) : arguments'[i]? = arguments[i]? := by
  cases h with
  | returned => rfl
  | @output n _ _ _ _ _ _ _ _ _ gives rest _ =>
    by_cases hi : i < n
    · exact gives.inputs i p ((List.getElem?_take_of_lt hi).trans hp) hmode
    · have hdrop := congrArg (·[i - n]?) rest
      simpa only [List.getElem?_drop, Nat.add_sub_of_le (Nat.le_of_not_lt hi)] using hdrop

/-- Once the return value is there, the outputs are read, whatever the parameters are. -/
theorem readResults_cases (m : Method) (results : List Value) (arguments : List HostValue)
    (w : World) :
    (m.ret ≠ .void ∧ ∃ e w₁, convertResult m.ret results[0]? w = .error e w₁ ∧
      readResults m results arguments w = ((.error e, arguments), w₁)) ∨
    ∃ ret w₁, ∀ params, let m' := { m with params }
      (∀ outcome after w₂,
        readOutputs params 0 (results.drop (if m.ret = .void then 0 else 1)) arguments w₁ =
          ((outcome, after), w₂) →
        (readResults m' results arguments w).1 = (outcome.map fun _ => ret, after)) ∧
      ∀ values w₂, TakenInOrder results (if m.ret = .void then 0 else 1)
          (outputPlaces params arguments) w₁ values w₂ →
        ∃ values', TakenInOrder results 0 (m'.places arguments) w values' w₂ := by
  by_cases hvoid : m.ret = .void
  · refine .inr ⟨.null, w, fun params => ⟨fun outcome after w₂ hread => ?_, fun values w₂ h => ?_⟩⟩
    · rw [if_pos hvoid, List.drop_zero] at hread
      unfold readResults
      rw [if_pos (beq_iff_eq.mpr hvoid), pure_bind]
      dsimp only
      rw [bind_of_eq hread]
      cases outcome <;> rfl
    · rw [if_pos hvoid] at h
      refine ⟨values, ?_⟩
      unfold Method.places
      rw [if_pos (beq_iff_eq.mpr hvoid), List.nil_append]
      exact h
  · have hreturns : ¬ (m.ret == .void) = true := fun he => hvoid (beq_iff_eq.mp he)
    cases hret : convertResult m.ret results[0]? w with
    | error e w₁ =>
      refine .inl ⟨hvoid, e, w₁, rfl, ?_⟩
      rw [← List.head?_eq_getElem?] at hret
      unfold readResults
      rw [if_neg hreturns, bind_of_eq (attempt_of_error hret), pure_bind]
      rfl
    | ok ret w₁ =>
      refine .inr ⟨ret, w₁, fun params => ⟨fun outcome after w₂ hread => ?_, fun values w₂ h => ?_⟩⟩
      · rw [← List.head?_eq_getElem?] at hret
        rw [if_neg hvoid, List.drop_one] at hread
        unfold readResults
        dsimp only
        rw [if_neg hreturns, bind_of_eq (attempt_of_ok hret), pure_bind]
        dsimp only
        rw [bind_of_eq hread]
        cases outcome <;> rfl
      · rw [if_neg hvoid] at h
        refine ⟨ret :: values, ?_⟩
        unfold Method.places
        dsimp only
        rw [if_neg hreturns, List.singleton_append]
        refine .next hret ?_
        rw [discard_nil]
        exact h

theorem readResults_error (hlength : m.params.length ≤ arguments.length)
    (h : (readResults m results arguments w).1 = (.error e, arguments')) :
    m.Stops results arguments w e arguments' := by
  obtain ⟨hreturns, e', w₁, hfailed, hread⟩ | ⟨ret, w₁, hrest⟩ :=
    readResults_cases m results arguments w
  · rw [hread] at h
    cases h
    exact .returned hreturns hfailed
  · obtain ⟨⟨outcome, after⟩, w₂, houtputs⟩ : ∃ outcome w₂, readOutputs m.params 0
        (results.drop (if m.ret = .void then 0 else 1)) arguments w₁ = (outcome, w₂) := ⟨_, _, rfl⟩
    have hread := (hrest m.params).1 outcome after w₂ houtputs
    rw [show { m with params := m.params } = m from rfl, h] at hread
    cases outcome with
    | ok _ => cases hread
    | error e' =>
      cases hread
      obtain ⟨n, p, values, w₃, hp, hmode, htaken, hfilled, hfailed⟩ :=
        readOutputs_error ((Nat.zero_add _).trans_le hlength) houtputs
      obtain ⟨values', htaken'⟩ := (hrest (m.params.take n)).2 values w₃ htaken
      have hsize : (m.params.take n).length ≤ arguments.length :=
        (List.length_take_le' n _).trans hlength
      -- What was filled is what the method with the parameters before gives.
      obtain ⟨ret', arguments'', hgiven, hgives⟩ := readResults_gives (m := m.upTo n) hsize htaken'
      have hupTo := (hrest (m.params.take n)).1 _ _ _ hfilled
      rw [show { m with params := m.params.take n } = m.upTo n from rfl, hgiven] at hupTo
      cases hupTo
      have hdrop := drop_readOutputs ((Nat.zero_add _).trans_le hsize) hfilled
      have hn : (m.params.take n).length = n :=
        List.length_take_of_le (List.getElem?_eq_some_iff.mp hp).1.le
      rw [Nat.zero_add, hn] at hdrop
      exact .output hp hmode htaken' hgives hdrop hfailed

/-! ## Calls -/

/-- A delegate restores the arguments if its function fails. -/
theorem invoke_delegate_error {d : Nat} {invoked : Method} {cls cls' : Class} {o : ObjectRef}
    {function : HandleRef} (hbody : invoked.body = some .delegateBody)
    (hobject : w.objects.get? o.index = some ⟨cls', .delegate (.script function m)⟩)
    (h : invoked.invoke (.ofDepth d) cls (some o) arguments w = ((.error e, arguments'), w')) :
    arguments' = arguments := by
  let a : Activation := ⟨cls, some o, arguments⟩
  obtain ⟨⟨outcome, after⟩, w₁, hcall⟩ : ∃ outcome w₁,
      callFunction (.ofDepth d) function m arguments (w.inDelegate a function) = (outcome, w₁) :=
    ⟨_, _, rfl⟩
  cases outcome with
  | ok ret =>
    -- The delegate would have handed over that value.
    obtain ⟨w₂, hok⟩ := invoke_delegate hbody hobject hcall
    cases hok.symm.trans h
  | error e' =>
    let w₂ := (discard [.handle function] none { w₁ with held := w.held }).2
    let w₃ := (discardReplaced after arguments w₂).2
    have hrun : MethodBody.run (.ofDepth d) .delegateBody
        { w with activations := a :: w.activations } = .error e' w₃ := by
      rw [runDelegate_eq (a := a) hobject rfl hcall]
      rfl
    have hafter : w₃.activations = a :: w.activations := by
      show (discard _ none _).2.activations = _
      rw [discard_eq]
      show (discard _ none _).2.activations = _
      rw [discard_eq]
      exact callFunction_activations hcall
    unfold Method.invoke at h
    rw [hbody] at h
    dsimp only at h
    rw [activate_eq (attempt_of_error hrun) hafter] at h
    cases h
    rfl

/-- What a call leaves of the arguments when it fails: they are as they were, unless its results
were read and did not all convert. -/
def Method.Leaves (m : Method) (arguments : List HostValue) (outcome : CallOutcome) : Prop :=
  ∀ e, outcome.1 = .error e → outcome.2 = arguments ∨
    ∃ results w, m.Stops results arguments w e outcome.2

/-- A call that throws. -/
theorem leaves_thrown (refs : List Ref) (x : Action (Except Failure Exception)) (w : World) :
    m.Leaves arguments ((do
      let e ← x
      unhold refs
      settle
      match e with
      | .ok e => return (.error (.exception e), arguments)
      | .error e => return (.error e, arguments) : Action CallOutcome) w).1 := by
  obtain ⟨outcome, w₁, hx⟩ : ∃ outcome w₁, x w = (outcome, w₁) := ⟨_, _, rfl⟩
  rw [bind_of_eq hx]
  cases outcome <;> exact fun _ _ => .inl rfl

section

variable (hlength : m.params.length ≤ arguments.length)
include hlength

theorem leaves_finishCall (E : Engine) (top nargs : Nat) (w : World) :
    m.Leaves arguments (finishCall E m arguments top nargs w).1 := by
  obtain ⟨called, w₁, hcall⟩ : ∃ called w₁,
      attempt (protectedCall E nargs (-1)) w = (called, w₁) := ⟨_, _, rfl⟩
  unfold finishCall
  rw [bind_of_eq hcall]
  match called with
  | .error _ => exact fun _ _ => .inl rfl
  | .ok .ok =>
    intro e he
    refine .inr ⟨w₁.machine.valuesFrom (top + 1), w₁, readResults_error hlength ?_⟩
    exact Prod.ext he rfl
  | .ok .runtimeError | .ok .stackOverflow =>
    exact leaves_thrown (popValue w₁).1.refs (attempt (exceptionOf E (popValue w₁).1))
      (setTop top (hold (popValue w₁).1.refs (popValue w₁).2).2).2

theorem leaves_callTableMethod (E : Engine) (table : HandleRef) (w : World) :
    m.Leaves arguments (callTableMethod E table m arguments w).1 := by
  let self := w.heldBy table
  unfold callTableMethod
  rw [bind_of_eq (get_eq w)]
  cases w.session?.isNone with
  | true => exact fun _ _ => .inl rfl
  | false =>
    obtain ⟨field, w₁, hfield⟩ : ∃ field w₁,
        attempt (index E self (.text m.name)) (push self w).2 = (field, w₁) := ⟨_, _, rfl⟩
    rw [if_neg Bool.false_ne_true, bind_of_eq (show readMachine w = (w.machine, w) from rfl),
      bind_of_eq (handleValue_eq table w),
      bind_of_eq (show push self w = ((), (push self w).2) from rfl), bind_of_eq hfield]
    cases field with
    | error e =>
      exact leaves_thrown e.refs (attempt (exceptionOfRaise E e))
        (setTop w.machine.top (hold e.refs w₁).2).2
    | ok f =>
      dsimp only
      rw [bind_of_eq (show push f w₁ = ((), (push f w₁).2) from rfl)]
      cases f.type == .function with
      | true => exact leaves_finishCall hlength E _ _ _
      | false => exact fun _ he => nomatch he

/-- An interface made from a table keeps the arguments, up to the outputs before a result that does
not convert. -/
theorem leaves_invoke_table {cls cls' : Class} {o : ObjectRef} {table : HandleRef}
    (hbody : m.body = none) (hobject : w.objects.get? o.index = some ⟨cls', .scriptTable table⟩)
    (E : Engine) : m.Leaves arguments (m.invoke E cls (some o) arguments w).1 := by
  have hread : (some o).mapM (fun o : ObjectRef => readObject? o) w =
      (some (some ⟨cls', .scriptTable table⟩), w) := by
    show (some (w.objects.get? o.index), w) = _
    rw [hobject]
  unfold Method.invoke
  rw [hbody]
  dsimp only
  rw [bind_of_eq hread]
  exact leaves_callTableMethod hlength E table (w.inTable arguments)

end

/-! ### A second result that does not convert -/

/-- A method with a number and a truth value as outputs. -/
def checkMethod : Method where
  name := "Divide"
  declaringType := "Demo.IDivide"
  params := [⟨.int .i32, .output, none, false⟩, ⟨.bool, .output, none, false⟩]
  ret := .void
  body := none

/-- The script returns two numbers, and the first one stays. -/
theorem leaves_invoke_table_dividing :
    ∃ e arguments' w', checkMethod.invoke (.ofDepth 5) default (some ⟨1⟩) [.null, .null] .dividing =
      ((.error e, arguments'), w') ∧ arguments' = [.int .i32 3, .null] ∧
      ∃ results w₁, checkMethod.Stops results [.null, .null] w₁ e arguments' := by
  have hlength : checkMethod.params.length ≤ [HostValue.null, .null].length := Nat.le_refl 2
  have hleaves : checkMethod.Leaves [.null, .null]
      (checkMethod.invoke (.ofDepth 5) default (some ⟨1⟩) [.null, .null] .dividing).1 :=
    leaves_invoke_table hlength rfl rfl (.ofDepth 5)
  have hrun : (checkMethod.invoke (.ofDepth 5) default (some ⟨1⟩) [.null, .null] .dividing).1.map
      Except.toOption id = (none, [.int .i32 3, .null]) := by decide +kernel
  obtain ⟨⟨outcome, arguments'⟩, w', hcall⟩ : ∃ outcome w', checkMethod.invoke (.ofDepth 5) default
      (some ⟨1⟩) [.null, .null] .dividing = (outcome, w') := ⟨_, _, rfl⟩
  rw [hcall] at hrun hleaves
  obtain ⟨hfailed, harguments⟩ := Prod.mk.inj hrun
  cases outcome with
  | ok ret => cases hfailed
  | error e =>
    obtain hsame | hstops := hleaves e rfl
    · cases harguments.symm.trans hsame
    · exact ⟨e, arguments', w', hcall, harguments, hstops⟩

end ScriptBridge
