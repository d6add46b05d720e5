import ScriptBridge.Proofs.Bridge.Uncaught
import ScriptBridge.Proofs.Conversion.Plain
import ScriptBridge.Proofs.Dispatch.Reentrance
import ScriptBridge.Proofs.Stack.Balance
import ScriptBridge.Proofs.Vm.Reference

/-!
# Scripts behind methods

A delegate made from a function and an interface made from a table run scripts as methods. What goes
in and what comes out are matched by position: the values of input and reference parameters are the
arguments of the script in the order of the parameters, behind the table if there is one; its first
result is the return value, unless the method returns void, and the following ones are for the
output and reference parameters in the same order.

1. `Presented`: values that were pushed one after the other.
2. `TakenInOrder`: results that were read one after the other, each for the place of its position.
   `readResults_gives` says that this is how results are read.
3. `World.Forwards`: what a call comes to. `callFunction_forwards` and `callTableMethod_forwards`
   follow the two ways to call, and `scripts_forward` the methods that run them.
-/

namespace ScriptBridge

variable {w w' w₁ w₂ : World} {m : Method} {arguments : List HostValue} {results : List Value}

/-! ## What goes in -/

/-- The values a script gets: those of inputs and references, in the order of the parameters. -/
def Method.inputs (m : Method) (arguments : List HostValue) : List HostValue :=
  ((m.params.zip arguments).filter (·.1.mode != .output)).map Prod.snd

theorem StackFree.after {α : Type} {x : Action α} (hx : StackFree x) (hw : w.machine.HasFrame)
    {a : α} (h : x w = (a, w')) : w.machine.SameStack w'.machine := by
  have hsame := (hx w.machine hw w (.refl _)).2
  rw [h] at hsame
  exact hsame

theorem StackFree.after_ok {ε α : Type} {x : EStateM ε World α} (hx : StackFree x)
    (hw : w.machine.HasFrame) {a : α} (h : x w = .ok a w') : w.machine.SameStack w'.machine := by
  have hsame := (hx w.machine hw w (.refl _)).2
  rw [h] at hsame
  exact hsame

/-- Host values were pushed one after the other, each as what scripts see for it. -/
inductive Presented : List HostValue → World → List Value → World → Prop
  | nil (w : World) : Presented [] w [] w
  | cons {v : HostValue} {rest : List HostValue} {w w₁ w₂ : World} {x : Value} {xs : List Value}
      (shown : v.toValue w = (x, w₁)) (others : Presented rest (push x w₁).2 xs w₂) :
      Presented (v :: rest) w (x :: xs) w₂

theorem pushInputs_presented (params : List Param) (arguments : List HostValue) (w : World) :
    ∃ given w', pushInputs params arguments w = (given.length, w') ∧
      Presented (((params.zip arguments).filter (·.1.mode != .output)).map Prod.snd) w given
        w' := by
  induction params generalizing arguments w with
  | nil => exact ⟨[], w, rfl, .nil w⟩
  | cons p params ih =>
    cases arguments with
    | nil => exact ⟨[], w, rfl, .nil w⟩
    | cons v arguments =>
      rw [List.zip_cons_cons]
      unfold pushInputs
      by_cases hmode : p.mode = .output
      · obtain ⟨given, w', hpush, hgiven⟩ := ih arguments w
        refine ⟨given, w', ?_, ?_⟩
        · rw [if_pos (beq_iff_eq.mpr hmode)]
          exact hpush
        · rw [List.filter_cons_of_neg (by simp [hmode])]
          exact hgiven
      · obtain ⟨x, w₁, hshown⟩ : ∃ x w₁, v.toValue w = (x, w₁) := ⟨_, _, rfl⟩
        obtain ⟨given, w', hpush, hgiven⟩ := ih arguments (push x w₁).2
        refine ⟨x :: given, w', ?_, ?_⟩
        · have hhost : pushHost v w = ((), (push x w₁).2) := by
            unfold pushHost
            rw [bind_of_eq hshown]
            rfl
          rw [if_neg (fun h => hmode (beq_iff_eq.mp h)), bind_of_eq hhost, bind_of_eq hpush]
          rfl
        · rw [List.filter_cons_of_pos (by simp [hmode])]
          exact .cons hshown hgiven

/-- The values lie on the stack in this order. -/
theorem Presented.stack {vs : List HostValue} {given : List Value} (h : Presented vs w given w')
    (hw : w.machine.HasFrame) :
    w'.machine.stack.toList = w.machine.stack.toList ++ given ∧
      w'.machine.frames = w.machine.frames ∧ w'.machine.limits = w.machine.limits := by
  induction h with
  | nil => exact ⟨(List.append_nil _).symm, rfl, rfl⟩
  | @cons v rest w w₁ w₂ x xs shown others ih =>
    have hsame := (orderly_toValue v).stackFree.after hw shown
    obtain ⟨hstack, hframes, hlimits⟩ := ih ((hsame.hasFrame hw).push x)
    refine ⟨?_, hframes.trans hsame.frames, hlimits.trans hsame.limits⟩
    rw [hstack]
    show (w₁.machine.stack.push x).toList ++ xs = _
    rw [hsame.stack, Array.toList_push, List.append_assoc]
    rfl

/-! ## What comes out -/

/-- The places of output and reference parameters, with what their values hold so far. -/
def outputPlaces (params : List Param) (arguments : List HostValue) : List (HostType × List Ref) :=
  ((params.zip arguments).filter (·.1.mode != .input)).map fun (p, v) => (p.type, v.refs)

/-- What results are for: the return value, unless the method returns void, and then the output and
reference parameters in order. -/
def Method.places (m : Method) (arguments : List HostValue) : List (HostType × List Ref) :=
  (if m.ret == .void then [] else [(m.ret, [])]) ++ outputPlaces m.params arguments

/-- Results from a position on are converted one after the other, each to the type of its place;
then what was in the place is let go of. -/
inductive TakenInOrder (results : List Value) :
    Nat → List (HostType × List Ref) → World → List HostValue → World → Prop
  | done (k : Nat) (w : World) : TakenInOrder results k [] w [] w
  | next {k : Nat} {t : HostType} {old : List Ref} {rest : List (HostType × List Ref)}
      {w w₁ w₂ : World} {v : HostValue} {values : List HostValue}
      (converted : convertResult t results[k]? w = .ok v w₁)
      (others : TakenInOrder results (k + 1) rest (discard old none w₁).2 values w₂) :
      TakenInOrder results k ((t, old) :: rest) w (v :: values) w₂

/-- A result that is missing gives the default of its type. -/
theorem TakenInOrder.missing {k : Nat} {places : List (HostType × List Ref)}
    {values : List HostValue} (h : TakenInOrder results k places w values w') {j : Nat}
    (hj : results.length ≤ k + j) :
    values[j]? = places[j]?.map fun place => place.1.defaultValue := by
  induction h generalizing j with
  | done => rfl
  | @next k t old rest w w₁ w₂ v values converted others ih =>
    cases j with
    | zero =>
      have hnone : results[k]? = none := List.getElem?_eq_none hj
      rw [hnone] at converted
      cases converted
      rfl
    | succ j => exact ih (by omega)

/-- Results without a place are ignored. -/
theorem TakenInOrder.append {k : Nat} {places : List (HostType × List Ref)}
    {values : List HostValue}
    (h : TakenInOrder results k places w values w') (hplaces : k + places.length ≤ results.length)
    (extra : List Value) : TakenInOrder (results ++ extra) k places w values w' := by
  induction h with
  | done k w => exact .done k w
  | next converted others ih =>
    rw [List.length_cons] at hplaces
    refine .next ?_ (ih (by omega))
    rw [List.getElem?_append_left (by omega)]
    exact converted

/-- How many outputs and references come before a parameter. -/
def outputsBefore (params : List Param) (i : Nat) : Nat :=
  (params.take i).countP (·.mode != .input)

/-- What a method gives for the values of its places: the first one, unless it returns void. The
others are in the arguments of outputs and references, in order; inputs are as they were. -/
structure Method.Gives (m : Method) (arguments values : List HostValue) (ret : HostValue)
    (arguments' : List HostValue) : Prop where
  ret : if m.ret = .void then ret = .null else values[0]? = some ret
  length : arguments'.length = arguments.length
  inputs : ∀ (i : Nat) (p : Param), m.params[i]? = some p → p.mode = .input →
    arguments'[i]? = arguments[i]?
  outputs : ∀ (i : Nat) (p : Param), m.params[i]? = some p → p.mode ≠ .input →
    arguments'[i]? = values[(if m.ret = .void then 0 else 1) + outputsBefore m.params i]?

/-- Parameters and return type are all of a method that matters. -/
theorem Method.Gives.congr {m' : Method} {values after : List HostValue} {ret : HostValue}
    (h : m'.Gives arguments values ret after) (hparams : m'.params = m.params)
    (hret : m'.ret = m.ret) : m.Gives arguments values ret after where
  ret := hret ▸ h.ret
  length := h.length
  inputs := hparams ▸ h.inputs
  outputs := by
    have houtputs := h.outputs
    rw [hparams, hret] at houtputs
    exact houtputs

/-- The values of the places are all that a method gives depends on. -/
theorem Method.Gives.unique {values : List HostValue} {ret ret' : HostValue}
    {arguments₁ arguments₂ : List HostValue} (hlength : arguments.length = m.params.length)
    (h : m.Gives arguments values ret arguments₁) (h' : m.Gives arguments values ret' arguments₂) :
    ret = ret' ∧ arguments₁ = arguments₂ := by
  constructor
  · have hret := h.ret
    have hret' := h'.ret
    by_cases hvoid : m.ret = .void
    · rw [if_pos hvoid] at hret hret'
      rw [hret, hret']
    · rw [if_neg hvoid] at hret hret'
      exact Option.some.inj (hret.symm.trans hret')
  · refine List.ext_getElem? fun i => ?_
    by_cases hi : i < m.params.length
    · have hp := List.getElem?_eq_getElem hi
      by_cases hmode : m.params[i].mode = .input
      · rw [h.inputs i _ hp hmode, h'.inputs i _ hp hmode]
      · rw [h.outputs i _ hp hmode, h'.outputs i _ hp hmode]
    · have h₁ := h.length
      have h₂ := h'.length
      rw [List.getElem?_eq_none (by omega), List.getElem?_eq_none (by omega)]

@[simp] theorem outputsBefore_zero (params : List Param) : outputsBefore params 0 = 0 := rfl

theorem outputsBefore_input {p : Param} (hmode : p.mode = .input) (params : List Param) (j : Nat) :
    outputsBefore (p :: params) (j + 1) = outputsBefore params j := by
  simp [outputsBefore, hmode]

theorem outputsBefore_output {p : Param} (hmode : p.mode ≠ .input) (params : List Param) (j : Nat) :
    outputsBefore (p :: params) (j + 1) = outputsBefore params j + 1 := by
  simp [outputsBefore, hmode]

section

variable {p : Param} {i : Nat}

theorem outputPlaces_input (hmode : p.mode = .input) (params : List Param)
    (hi : i < arguments.length) :
    outputPlaces (p :: params) (arguments.drop i) =
      outputPlaces params (arguments.drop (i + 1)) := by
  rw [List.drop_eq_getElem_cons hi, outputPlaces, List.zip_cons_cons,
    List.filter_cons_of_neg (by simp [hmode])]
  rfl

theorem outputPlaces_output (hmode : p.mode ≠ .input) (params : List Param)
    (hi : i < arguments.length) :
    outputPlaces (p :: params) (arguments.drop i) =
      (p.type, arguments[i].refs) :: outputPlaces params (arguments.drop (i + 1)) := by
  rw [List.drop_eq_getElem_cons hi, outputPlaces, List.zip_cons_cons,
    List.filter_cons_of_pos (by simp [hmode])]
  rfl

theorem readOutputs_input (hmode : p.mode = .input) (params : List Param) (results : List Value)
    (arguments : List HostValue) :
    readOutputs (p :: params) i results arguments =
      readOutputs params (i + 1) results arguments := by
  rw [readOutputs, if_pos (beq_iff_eq.mpr hmode)]

theorem readOutputs_output (hmode : p.mode ≠ .input) (params : List Param)
    (hi : i < arguments.length) {v : HostValue}
    (hresult : convertResult p.type results.head? w = .ok v w₁) :
    readOutputs (p :: params) i results arguments w =
      readOutputs params (i + 1) results.tail (arguments.set i v)
        (discard arguments[i].refs none w₁).2 := by
  have hreplace : replaceArgument arguments i v w₁ =
      (arguments.set i v, (discard arguments[i].refs none w₁).2) := by
    unfold replaceArgument
    rw [List.getElem?_eq_getElem hi]
    rfl
  rw [readOutputs, if_neg (fun he => hmode (beq_iff_eq.mp he)), if_pos hi,
    bind_of_eq (attempt_of_ok hresult)]
  dsimp only
  rw [bind_of_eq hreplace]

theorem readOutputs_failing (hmode : p.mode ≠ .input) (params : List Param)
    (hi : i < arguments.length) {e : Failure}
    (hresult : convertResult p.type results.head? w = .error e w₁) :
    readOutputs (p :: params) i results arguments w = ((.error e, arguments), w₁) := by
  rw [readOutputs, if_neg (fun he => hmode (beq_iff_eq.mp he)), if_pos hi,
    bind_of_eq (attempt_of_error hresult)]
  rfl

end

/-- Outputs are read in order, from a parameter and a result on. -/
theorem readOutputs_takenInOrder {params : List Param} {i k : Nat} {values : List HostValue}
    (hlength : i + params.length ≤ arguments.length)
    (h : TakenInOrder results k (outputPlaces params (arguments.drop i)) w values w') :
    ∃ arguments', readOutputs params i (results.drop k) arguments w = ((.ok (), arguments'), w') ∧
      arguments'.length = arguments.length ∧ (∀ j < i, arguments'[j]? = arguments[j]?) ∧
      ∀ j (p : Param), params[j]? = some p → arguments'[i + j]? =
        if p.mode = .input then arguments[i + j]? else values[outputsBefore params j]? := by
  -- The parameters that were read are before `i`, and the results before `k` are theirs.
  induction params generalizing i k arguments w values with
  | nil =>
    cases h
    exact ⟨arguments, rfl, rfl, fun _ _ => rfl, nofun⟩
  | cons p params ih =>
    rw [List.length_cons] at hlength
    have hi : i < arguments.length := by omega
    have hplace (j : Nat) : i + (j + 1) = i + 1 + j := by omega
    by_cases hmode : p.mode = .input
    · rw [outputPlaces_input hmode params hi] at h
      obtain ⟨arguments', hread, hsize, hbefore, hafter⟩ := ih (by omega) h
      refine ⟨arguments', ?_, hsize, fun j hj => hbefore j (by omega), fun j q hq => ?_⟩
      · rw [readOutputs_input hmode]
        exact hread
      · cases j with
        | zero =>
          cases hq
          rw [if_pos hmode]
          exact hbefore i (by omega)
        | succ j =>
          rw [outputsBefore_input hmode, hplace]
          exact hafter j q hq
    · rw [outputPlaces_output hmode params hi] at h
      cases h with
      | @next _ _ _ _ _ w₁ _ v values converted others =>
        rw [← List.head?_drop] at converted
        have hset : (arguments.set i v).drop (i + 1) = arguments.drop (i + 1) :=
          List.drop_set_of_lt (Nat.lt_succ_self i)
        rw [← hset] at others
        obtain ⟨arguments', hread, hsize, hbefore, hafter⟩ :=
          ih (by rw [List.length_set]; omega) others
        rw [List.length_set] at hsize
        refine ⟨arguments', ?_, hsize, fun j hj => ?_, fun j q hq => ?_⟩
        · rw [readOutputs_output hmode params hi converted, List.tail_drop]
          exact hread
        · rw [hbefore j (by omega), List.getElem?_set_ne (by omega)]
        · cases j with
          | zero =>
            cases hq
            rw [if_neg hmode]
            refine (hbefore i (by omega)).trans ?_
            rw [List.getElem?_set_self hi]
            rfl
          | succ j =>
            rw [outputsBefore_output hmode, hplace, hafter j q hq, List.getElem?_set_ne (by omega),
              List.getElem?_cons_succ]

theorem discard_nil (w : World) : discard [] none w = ((), w) := by
  rw [discard_eq, List.map_nil, List.append_nil]

/-- Reading the outputs once the return value is there. -/
theorem readOutputs_gives {params : List Param} {k : Nat} {values : List HostValue}
    (hlength : params.length ≤ arguments.length)
    (h : TakenInOrder results k (outputPlaces params arguments) w values w') :
    ∃ arguments', readOutputs params 0 (results.drop k) arguments w = ((.ok (), arguments'), w') ∧
      arguments'.length = arguments.length ∧ ∀ (i : Nat) (p : Param), params[i]? = some p →
        arguments'[i]? =
          if p.mode = .input then arguments[i]? else values[outputsBefore params i]? := by
  obtain ⟨arguments', hread, hsize, -, hafter⟩ :=
    readOutputs_takenInOrder (i := 0) ((Nat.zero_add _).trans_le hlength) h
  refine ⟨arguments', hread, hsize, fun i p hp => ?_⟩
  have hi := hafter i p hp
  rw [Nat.zero_add] at hi
  exact hi

/-- All results of a call are read by their positions. -/
theorem readResults_gives {values : List HostValue}
    (hlength : m.params.length ≤ arguments.length)
    (h : TakenInOrder results 0 (m.places arguments) w values w') :
    ∃ ret arguments', readResults m results arguments w = ((.ok ret, arguments'), w') ∧
      m.Gives arguments values ret arguments' := by
  unfold Method.places at h
  unfold readResults
  by_cases hvoid : m.ret = .void
  · rw [if_pos (beq_iff_eq.mpr hvoid), List.nil_append] at h
    obtain ⟨arguments', hread, hsize, hafter⟩ := readOutputs_gives hlength h
    refine ⟨.null, arguments', ?_, ?_⟩
    · rw [List.drop_zero] at hread
      rw [if_pos (beq_iff_eq.mpr hvoid), pure_bind]
      dsimp only
      rw [bind_of_eq hread]
      rfl
    · exact {
        ret := by rw [if_pos hvoid]
        length := hsize
        inputs := fun i p hp hmode => by rw [hafter i p hp, if_pos hmode]
        outputs := fun i p hp hmode => by
          rw [hafter i p hp, if_neg hmode, if_pos hvoid, Nat.zero_add] }
  · rw [if_neg (fun he => hvoid (beq_iff_eq.mp he)), List.singleton_append] at h
    cases h with
    | @next _ _ _ _ _ w₁ _ v values converted others =>
      rw [discard_nil] at others
      obtain ⟨arguments', hread, hsize, hafter⟩ := readOutputs_gives hlength others
      refine ⟨v, arguments', ?_, ?_⟩
      · rw [← List.head?_eq_getElem?] at converted
        rw [List.drop_one] at hread
        rw [if_neg (fun he => hvoid (beq_iff_eq.mp he)), bind_of_eq (attempt_of_ok converted),
          pure_bind]
        dsimp only
        rw [bind_of_eq hread]
        rfl
      · exact {
          ret := by
            rw [if_neg hvoid]
            rfl
          length := hsize
          inputs := fun i p hp hmode => by rw [hafter i p hp, if_pos hmode]
          outputs := fun i p hp hmode => by
            rw [hafter i p hp, if_neg hmode, if_neg hvoid, Nat.add_comm 1,
              List.getElem?_cons_succ] }

/-- Results without references convert to the same values whatever the world. -/
theorem convertResult_unique {t : HostType} {r : Option Value} (hr : ∀ v, r = some v → v.refs = [])
    {x x' : HostValue} (h : convertResult t r w = .ok x w₁)
    (h' : convertResult t r w' = .ok x' w₂) : x = x' := by
  cases r with
  | none =>
    cases h
    cases h'
    rfl
  | some v =>
    obtain ⟨converted, hidle⟩ := asType_idle (hr v rfl) t
    unfold convertResult at h h'
    dsimp only at h h'
    rw [bind_of_ok (lift_of_eq (hidle _))] at h h'
    cases converted with
    | none => cases h
    | some y =>
      cases h
      cases h'
      rfl

theorem TakenInOrder.unique {k : Nat} {places : List (HostType × List Ref)}
    {values values' : List HostValue} (hresults : ∀ v ∈ results, v.refs = [])
    (h : TakenInOrder results k places w values w₁)
    (h' : TakenInOrder results k places w' values' w₂) : values = values' := by
  induction h generalizing w' values' with
  | done =>
    cases h'
    rfl
  | @next k t old rest w w₁ w₂ v values converted others ih =>
    cases h' with
    | next converted' others' =>
      rw [convertResult_unique (fun v hv => hresults v (List.mem_of_getElem? hv)) converted
        converted', ih others']

/-! ## The call -/

/-- The values from a position on are the slots from there to the top. -/
theorem Machine.valuesFrom_eq_drop (m : Machine) (n : Nat) :
    m.valuesFrom (n + 1) = m.stack.toList.drop (m.base + n) := by
  have hcount : ((m.top : Int) - (n + 1 : Int) + 1).toNat = m.stack.size - (m.base + n) := by
    unfold top
    omega
  unfold valuesFrom
  rw [hcount]
  refine List.ext_getElem (by simp) fun k hk hk' => ?_
  rw [List.length_drop, Array.length_toList] at hk'
  have hslot : m.slot? ((n + 1 : Int) + k) = some (m.base + n + k) := by
    unfold slot?
    have hposition : m.base + ((n + 1 : Int) + k).toNat - 1 = m.base + n + k := by omega
    rw [if_pos (by omega)]
    dsimp only
    rw [hposition, if_pos (by omega)]
  rw [List.getElem_map, List.getElem_range, List.getElem_drop, Array.getElem_toList]
  unfold value
  rw [hslot]
  dsimp only
  rw [Array.getD_eq_getD_getElem?, Array.getElem?_eq_getElem (by omega), Option.getD_some]

/-- The second value from the top moves above the first. -/
theorem Machine.toList_insert {m : Machine} {below : List Value} {x y : Value}
    (hstack : m.stack.toList = below ++ [x, y]) (hbase : m.base ≤ below.length) :
    (m.insert (-2)).stack.toList = below ++ [y, x] := by
  have hsize := congrArg List.length hstack
  simp only [Array.length_toList, List.length_append, List.length_cons, List.length_nil] at hsize
  have hslot : m.slot? (-2) = some below.length := by
    have hroom : (2 ≤ m.stack.size && m.base ≤ m.stack.size - 2) = true := by
      rw [Bool.and_eq_true, decide_eq_true_iff, decide_eq_true_iff]
      omega
    have hplace : m.stack.size - 2 = below.length := by omega
    unfold slot?
    rw [if_neg (by decide), if_pos (by decide)]
    exact (if_pos hroom).trans (congrArg some hplace)
  have hback : m.stack.back? = some y := by
    have hplace : m.stack.size - 1 - below.length = 1 := by omega
    rw [Array.back?_eq_getElem?, ← Array.getElem?_toList, hstack,
      List.getElem?_append_right (by omega), hplace]
    rfl
  unfold insert
  rw [hslot, hback]
  show (m.stack.pop.insertIdxIfInBounds below.length y).toList = _
  have hpop : (below ++ [x, y]).dropLast = below ++ [x] := by
    rw [List.dropLast_append_cons]
    rfl
  rw [toList_insertSlot, Array.toList_pop, hstack, hpop,
    insertIdx_eq_append _ _ (List.length_append ▸ Nat.le_add_right _ _), List.take_left,
    List.drop_left]

/-- The arguments of a function that lies on the stack below them are what its frame has. -/
theorem World.entered_valuesFrom {w : World} {f : FunctionRef} {below given : List Value}
    (hstack : w.machine.stack.toList = below ++ .function f :: given) :
    (w.entered below.length f w.machine.stack).machine.valuesFrom 1 = given := by
  refine (Machine.valuesFrom_eq_drop _ 0).trans ?_
  show w.machine.stack.toList.drop (below.length + 1 + 0) = given
  rw [hstack, Nat.add_zero, List.drop_append, List.drop_of_length_le (Nat.le_succ _),
    Nat.add_sub_cancel_left]
  rfl

section

variable {E : Engine} (hE : ∀ f, Framed (E.run f) (E.run f))
include hE

/-- A function that lies on the stack below its arguments is called, and its results take the place
of all of them. -/
theorem call_function {f : FunctionRef} {below given : List Value}
    (hstack : w.machine.stack.toList = below ++ .function f :: given)
    (hbase : w.machine.base ≤ below.length) (hdeep : w.machine.isTooDeep = false) {n : Nat}
    (hbody : E.run f (w.entered below.length f w.machine.stack) = .ok n w₂) :
    ∃ w₁, call E given.length (-1) w = .ok () w₁ ∧ w₁.machine.frames = w.machine.frames ∧
      w₁.machine.stack.toList = below ++ w₂.machine.lastValues n := by
  have hsize := congrArg List.length hstack
  rw [Array.length_toList, List.length_append, List.length_cons] at hsize
  have hslot : w.machine.calleeSlot? (given.length : Int).toNat = some below.length := by
    have hroom : given.length < w.machine.top := by
      unfold Machine.top
      omega
    have hplace : w.machine.stack.size - (given.length + 1) = below.length := by omega
    exact (Machine.calleeSlot?_of_room hroom).trans (congrArg some hplace)
  have hcallee : Callee w below.length f w.machine.stack := by
    refine .function ?_
    rw [Array.getD_eq_getD_getElem?, ← Array.getElem?_toList, hstack,
      List.getElem?_append_right (Nat.le_refl _), Nat.sub_self]
    rfl
  obtain ⟨w₁, hcall, hframes, -, hresults⟩ := call_of_returned hE (-1) hslot hcallee hdeep hbody
  refine ⟨w₁, hcall, hframes, ?_⟩
  rw [hresults, hstack, List.take_left]
  rfl

end

/-- A call of a script by a method, from the world on in which what stands before the inputs is on
the stack: the function is called with exactly these values and the inputs, in order. If it returns,
and its results convert, each to the type of its place, they are what the method gives. -/
def World.Forwards (w start : World) (E : Engine) (f : FunctionRef) (leading : List Value)
    (m : Method) (arguments : List HostValue) (x : Action CallOutcome) : Prop :=
  ∃ given prepared, Presented (m.inputs arguments) start given prepared ∧
    (prepared.entered w.machine.stack.size f prepared.machine.stack).machine.valuesFrom 1 =
      leading ++ given ∧
    ∀ n w₂, E.run f (prepared.entered w.machine.stack.size f prepared.machine.stack) = .ok n w₂ →
      ∃ w₁, call E (leading ++ given).length (-1) prepared = .ok () w₁ ∧
        ∀ values w₃,
          TakenInOrder (w₂.machine.lastValues n) 0 (m.places arguments) w₁ values w₃ →
          ∃ ret arguments' w₄, x w = ((.ok ret, arguments'), w₄) ∧
            m.Gives arguments values ret arguments'

/-- The value that a handle stands for. -/
def World.heldBy (w : World) (h : HandleRef) : Value :=
  match w.handles.get? h.index with
  | some cell =>
    if cell.session == (w.machine.session.getD default).id then (readRef cell.reference w).1
    else .nil
  | none => .nil

theorem handleValue_eq (h : HandleRef) (w : World) : handleValue h w = (w.heldBy h, w) := by
  unfold handleValue World.heldBy
  rw [bind_of_eq (show (get : Action World) w = (w, w) from rfl)]
  cases w.handles.get? h.index with
  | none => rfl
  | some cell =>
    dsimp only
    rw [bind_of_eq (show readSession w = (w.machine.session.getD default, w) from rfl)]
    split
    · unfold readRef
      split <;> rfl
    · rfl

/-- What stands before the inputs of a call has been pushed: the function, and then the leading
values. -/
structure World.Opens (w start : World) (f : FunctionRef) (leading : List Value) : Prop where
  stack : start.machine.stack.toList = w.machine.stack.toList ++ .function f :: leading
  frames : start.machine.frames = w.machine.frames
  limits : start.machine.limits = w.machine.limits

section

variable {E : Engine} (hE : ∀ f, Framed (E.run f) (E.run f)) (hw : w.machine.HasFrame)
  (hdeep : w.machine.isTooDeep = false) (hlength : arguments.length = m.params.length)
include hE hw hdeep hlength

/-- From the pushing of the inputs on. -/
theorem finishCall_forwards {start : World} {f : FunctionRef} {leading : List Value}
    (hstart : w.Opens start f leading) {x : Action CallOutcome}
    (hx : x w = (do
      let n ← pushInputs m.params arguments
      finishCall E m arguments w.machine.top (n + leading.length)) start) :
    w.Forwards start E f leading m arguments x := by
  have hbase {m : Machine} (h : m.frames = w.machine.frames) : m.base = w.machine.base := by
    unfold Machine.base
    rw [h]
  obtain ⟨given, prepared, hpush, hgiven⟩ := pushInputs_presented m.params arguments start
  have hframe : start.machine.HasFrame := by
    have hsize := congrArg List.length hstart.stack
    rw [List.length_append, Array.length_toList, Array.length_toList] at hsize
    have hstartBase := hbase hstart.frames
    unfold Machine.HasFrame at hw ⊢
    omega
  obtain ⟨hprepared, hframes, hlimits⟩ := hgiven.stack hframe
  rw [hstart.stack, List.append_assoc, List.cons_append] at hprepared
  rw [hstart.frames] at hframes
  rw [hstart.limits] at hlimits
  have hpreparedBase := hbase hframes
  refine ⟨given, prepared, hgiven, ?_, fun n w₂ hbody => ?_⟩
  · rw [← Array.length_toList]
    exact World.entered_valuesFrom hprepared
  · rw [← Array.length_toList] at hbody
    obtain ⟨w₁, hcall, hcallFrames, hresults⟩ := call_function hE hprepared
      (by rw [hpreparedBase, Array.length_toList]; exact hw)
      (by unfold Machine.isTooDeep; rw [hframes, hlimits]; exact hdeep) hbody
    refine ⟨w₁, hcall, fun values w₃ htaken => ?_⟩
    have hvalues : w₁.machine.valuesFrom (w.machine.top + 1) = w₂.machine.lastValues n := by
      have hplace : w₁.machine.base + w.machine.top = w.machine.stack.toList.length := by
        rw [hbase (hcallFrames.trans hframes), Array.length_toList]
        exact Nat.add_sub_of_le hw
      rw [Machine.valuesFrom_eq_drop, hplace, hresults, List.drop_left]
    obtain ⟨ret, arguments', hread, hgives⟩ := readResults_gives hlength.ge htaken
    refine ⟨ret, arguments', (leaveFrame w.machine.top arguments' (.ok ret) w₃).2, ?_, hgives⟩
    rw [List.length_append, Nat.add_comm] at hcall
    rw [hx, bind_of_eq hpush]
    unfold finishCall
    rw [bind_of_eq (attempt_of_ok (protectedCall_of_ok hcall))]
    dsimp only
    rw [bind_of_eq (show readMachine w₁ = (w₁.machine, w₁) from rfl), hvalues, bind_of_eq hread]
    rfl

/-- A call of a function. -/
theorem callFunction_forwards (hsession : w.session?.isNone = false) {function : HandleRef}
    {f : FunctionRef} (hfunction : w.heldBy function = .function f) :
    w.Forwards (push (.function f) w).2 E f [] m arguments
      (callFunction E function m arguments) := by
  have hopens : w.Opens (push (.function f) w).2 f [] := by
    refine ⟨?_, rfl, rfl⟩
    show (w.machine.stack.push (.function f)).toList = _
    rw [Array.toList_push]
  have hpush : pushHandle function w = ((), (push (.function f) w).2) := by
    unfold pushHandle
    rw [bind_of_eq (handleValue_eq function w), hfunction]
    rfl
  refine finishCall_forwards hE hw hdeep hlength hopens ?_
  unfold callFunction
  rw [bind_of_eq (get_eq w), hsession]
  dsimp only
  rw [if_neg Bool.false_ne_true, bind_of_eq (show readMachine w = (w.machine, w) from rfl),
    bind_of_eq hpush]
  rfl

/-- A call of a function in a table, which gets the table first. -/
theorem callTableMethod_forwards (hsession : w.session?.isNone = false) {table : HandleRef}
    {self : Value} {f : FunctionRef} {w₁ : World} (hself : w.heldBy table = self)
    (hfield : index E self (.text m.name) (push self w).2 = .ok (.function f) w₁) :
    w.Forwards (modifyMachine (·.insert (-2)) (push (.function f) w₁).2).2 E f [self] m arguments
      (callTableMethod E table m arguments) := by
  have hframe : (push self w).2.machine.HasFrame := hw.push self
  have hindexed := (stackFree_index hE self (.text m.name)).after_ok hframe hfield
  have hpushed : (push (.function f) w₁).2.machine.stack.toList =
      w.machine.stack.toList ++ [self, .function f] := by
    show (w₁.machine.stack.push (.function f)).toList = _
    rw [hindexed.stack, Array.toList_push]
    show (w.machine.stack.push self).toList ++ _ = _
    rw [Array.toList_push, List.append_assoc]
    rfl
  have hframes : w₁.machine.frames = w.machine.frames := hindexed.frames
  have hopens :
      w.Opens (modifyMachine (·.insert (-2)) (push (.function f) w₁).2).2 f [self] := by
    refine ⟨?_, ?_, ?_⟩
    · refine Machine.toList_insert hpushed ?_
      rw [Array.length_toList]
      show Option.getD (w₁.machine.frames.head?.map _) 0 ≤ _
      rw [hframes]
      exact hw
    · show (Machine.insert _ (-2)).frames = _
      rw [Machine.insert_eq]
      exact hframes
    · show (Machine.insert _ (-2)).limits = _
      rw [Machine.insert_eq]
      exact hindexed.limits
  refine finishCall_forwards hE hw hdeep hlength hopens ?_
  unfold callTableMethod
  rw [bind_of_eq (get_eq w), hsession]
  dsimp only
  rw [if_neg Bool.false_ne_true, bind_of_eq (show readMachine w = (w.machine, w) from rfl),
    bind_of_eq (handleValue_eq table w), hself,
    bind_of_eq (show push self w = ((), (push self w).2) from rfl),
    bind_of_eq (attempt_of_ok hfield)]
  rfl

end

/-! ## Methods that run scripts -/

/-- The body of a delegate runs as the innermost activation, and holds the function meanwhile. -/
def World.inDelegate (w : World) (activation : Activation) (function : HandleRef) : World :=
  { w with
    activations := activation :: w.activations
    held := .handle function :: w.held }

/-- A method of a table holds its arguments meanwhile. -/
def World.inTable (w : World) (arguments : List HostValue) : World :=
  { w with held := arguments.flatMap HostValue.refs ++ w.held }

theorem World.heldBy_eq (h : HandleRef) (activations : List Activation) (held : List Ref) :
    World.heldBy { w with activations, held } h = w.heldBy h := by
  have hread (r : Int) : (readRef r { w with activations, held }).1 = (readRef r w).1 := by
    unfold readRef
    split <;> rfl
  unfold heldBy
  dsimp only
  split
  · rw [hread]
  · rfl

/-- What a method gives inside it may give around that. -/
theorem World.Forwards.around {inner start : World} {E : Engine} {f : FunctionRef}
    {leading : List Value} {x y : Action CallOutcome}
    (h : inner.Forwards start E f leading m arguments x) (hmachine : inner.machine = w.machine)
    (hy : ∀ ret arguments' w₁, x inner = ((.ok ret, arguments'), w₁) →
      ∃ w₂, y w = ((.ok ret, arguments'), w₂)) : w.Forwards start E f leading m arguments y := by
  obtain ⟨given, prepared, hgiven, hentered, hreturns⟩ := h
  rw [hmachine] at hentered hreturns
  refine ⟨given, prepared, hgiven, hentered, fun n w₂ hbody => ?_⟩
  obtain ⟨w₁, hcall, hresults⟩ := hreturns n w₂ hbody
  refine ⟨w₁, hcall, fun values w₃ htaken => ?_⟩
  obtain ⟨ret, arguments', w₄, hx, hgives⟩ := hresults values w₃ htaken
  obtain ⟨w₅, hend⟩ := hy ret arguments' w₄ hx
  exact ⟨ret, arguments', w₅, hend, hgives⟩

section

variable {d : Nat} {cls cls' : Class} {o : ObjectRef} {ret : HostValue}
  {arguments' : List HostValue}

/-- What is run inside an activation leaves the arguments that the activation has then. -/
theorem activate_eq {α : Type} {a b : Activation} {rest : List Activation} {x : Host α}
    {outcome : Except Failure α}
    (hx : attempt x { w with activations := a :: w.activations } = (outcome, w₁))
    (hafter : w₁.activations = b :: rest) :
    activate a x w = ((outcome, b.arguments), { w₁ with activations := w.activations }) := by
  have hmodify (f : World → World) (w : World) : (modify f : Action Unit) w = ((), f w) := rfl
  have hread : activation w₁ = (b, w₁) := by
    show (w₁.activations.head?.getD default, w₁) = _
    rw [hafter]
    rfl
  unfold activate
  rw [bind_of_eq (get_eq w), bind_of_eq (hmodify _ _), bind_of_eq hx, bind_of_eq hread]
  rfl

theorem setArguments_activations {a : Activation} {rest : List Activation}
    (h : w.activations = a :: rest) :
    (setArguments arguments w).2.activations = { a with arguments } :: rest := by
  cases w
  cases h
  rfl

/-- A call of a function leaves the activation of its caller alone. -/
theorem callFunction_activations {function : HandleRef} {outcome : CallOutcome}
    (hcall : callFunction (.ofDepth d) function m arguments w = (outcome, w₁)) :
    w₁.activations = w.activations := by
  have horderly : Orderly (Stable.trivial.regime false)
      (callFunction (.ofDepth d) function m arguments) :=
    alike_callFunction (Engine.ofDepth_alike Stable.trivial.conduct d).run function m arguments
  obtain ⟨b, hcourse⟩ := course_of_orderly horderly w []
  rw [hcall] at hcourse
  exact hcourse.activations_eq

/-- A delegate calls its function with the arguments of its activation, and does something with the
outcome in the world that the call leaves. -/
theorem runDelegate_eq {E : Engine} {a : Activation} {function : HandleRef} {outcome : CallOutcome}
    (hobject : w.objects.get? o.index = some ⟨cls', .delegate (.script function m)⟩)
    (htarget : a.target = some o)
    (hcall : callFunction E function m a.arguments (w.inDelegate a function) = (outcome, w₁)) :
    MethodBody.run E .delegateBody { w with activations := a :: w.activations } =
      (match outcome with
        | (.ok ret, after) => do
          setArguments after
          discardReplaced a.arguments after
          return ret
        | (.error e, after) => do
          discardReplaced after a.arguments
          throw e : Host HostValue)
        (discard [.handle function] none { w₁ with held := w.held }).2 := by
  let w' : World := { w with activations := a :: w.activations }
  have hactivation : (liftM activation : Host Activation) w' = .ok a w' := rfl
  have hheld : holding [.handle function] (do
      return ← callFunction E function m a.arguments : Host CallOutcome) w' =
      .ok outcome (discard [.handle function] none { w₁ with held := w.held }).2 :=
    holding_eq_ok [.handle function] (lift_of_eq hcall)
  have hread : (some o).mapM (fun o : ObjectRef => (readObject? o : Host _)) w' =
      .ok (some (some ⟨cls', .delegate (.script function m)⟩)) w' := by
    show EStateM.Result.ok (some (w.objects.get? o.index)) w' = _
    rw [hobject]
  unfold MethodBody.run
  dsimp only
  rw [bind_of_ok hactivation, htarget]
  refine (bind_of_ok hread).trans ?_
  show runDelegate E (.script function m) w' = _
  unfold runDelegate
  dsimp only
  rw [bind_of_ok hactivation, bind_of_ok hheld]
  obtain ⟨_ | ret, after⟩ := outcome <;> rfl

/-- A delegate hands over what its function gives, and the arguments after it. -/
theorem invoke_delegate {invoked : Method} {function : HandleRef}
    (hbody : invoked.body = some .delegateBody)
    (hobject : w.objects.get? o.index = some ⟨cls', .delegate (.script function m)⟩)
    (hcall : callFunction (.ofDepth d) function m arguments
      (w.inDelegate ⟨cls, some o, arguments⟩ function) = ((.ok ret, arguments'), w₁)) :
    ∃ w₂, invoked.invoke (.ofDepth d) cls (some o) arguments w = ((.ok ret, arguments'), w₂) := by
  let a : Activation := ⟨cls, some o, arguments⟩
  let w₂ := (discard [.handle function] none { w₁ with held := w.held }).2
  let w₃ := (discardReplaced arguments arguments' (setArguments arguments' w₂).2).2
  have hrun : MethodBody.run (.ofDepth d) .delegateBody
      { w with activations := a :: w.activations } = .ok ret w₃ := by
    rw [runDelegate_eq (a := a) hobject rfl hcall]
    rfl
  have hafter : w₃.activations = { a with arguments := arguments' } :: w.activations := by
    have hheads : w₂.activations = a :: w.activations := by
      show (discard _ none _).2.activations = _
      rw [discard_eq]
      exact callFunction_activations hcall
    show (discard _ none _).2.activations = _
    rw [discard_eq]
    exact setArguments_activations hheads
  unfold Method.invoke
  rw [hbody]
  exact ⟨_, activate_eq (attempt_of_ok hrun) hafter⟩

/-- An interface made from a table hands over what the table's function gives. -/
theorem invoke_table {table : HandleRef} (hbody : m.body = none)
    (hobject : w.objects.get? o.index = some ⟨cls', .scriptTable table⟩)
    (hcall : callTableMethod (.ofDepth d) table m arguments (w.inTable arguments) =
      ((.ok ret, arguments'), w₁)) :
    ∃ w₂, m.invoke (.ofDepth d) cls (some o) arguments w = ((.ok ret, arguments'), w₂) := by
  have hread : (some o).mapM (fun o : ObjectRef => readObject? o) w =
      (some (some ⟨cls', .scriptTable table⟩), w) := by
    show (some (w.objects.get? o.index), w) = _
    rw [hobject]
  have hhold : hold (arguments.flatMap HostValue.refs) w = ((), w.inTable arguments) := rfl
  unfold Method.invoke
  rw [hbody]
  dsimp only
  rw [bind_of_eq hread]
  dsimp only
  rw [bind_of_eq hhold, bind_of_eq hcall]
  exact ⟨_, rfl⟩

end

/-! ## Both ways -/

/-- A method that runs a script matches arguments and results by position, whichever way the script
stands behind it. -/
structure World.RunsScripts (w : World) (d : Nat) (m : Method) (arguments : List HostValue) :
    Prop where
  /-- A delegate calls its function with the inputs. -/
  delegate : ∀ (invoked : Method) (cls cls' : Class) (o : ObjectRef) (function : HandleRef)
    (f : FunctionRef), invoked.body = some .delegateBody →
    w.objects.get? o.index = some ⟨cls', .delegate (.script function m)⟩ →
    w.heldBy function = .function f →
    w.Forwards (push (.function f) (w.inDelegate ⟨cls, some o, arguments⟩ function)).2 (.ofDepth d)
      f [] m arguments (invoked.invoke (.ofDepth d) cls (some o) arguments)
  /-- An interface calls the function that its table has for the method, with the table before the
  inputs. -/
  interface : ∀ (cls cls' : Class) (o : ObjectRef) (table : HandleRef) (f : FunctionRef)
    (w₁ : World), m.body = none → w.objects.get? o.index = some ⟨cls', .scriptTable table⟩ →
    index (.ofDepth d) (w.heldBy table) (.text m.name)
      (push (w.heldBy table) (w.inTable arguments)).2 = .ok (.function f) w₁ →
    w.Forwards (modifyMachine (·.insert (-2)) (push (.function f) w₁).2).2 (.ofDepth d)
      f [w.heldBy table] m arguments (m.invoke (.ofDepth d) cls (some o) arguments)
  /-- Results that are missing give the defaults of their types. -/
  missing : ∀ (results : List Value) (w₁ w₂ : World) (values : List HostValue),
    TakenInOrder results 0 (m.places arguments) w₁ values w₂ → ∀ j, results.length ≤ j →
      values[j]? = (m.places arguments)[j]?.map fun place => place.1.defaultValue
  /-- Results without a place are ignored. -/
  surplus : ∀ (results : List Value) (w₁ w₂ : World) (values : List HostValue),
    TakenInOrder results 0 (m.places arguments) w₁ values w₂ →
    (m.places arguments).length ≤ results.length → ∀ extra,
      TakenInOrder (results ++ extra) 0 (m.places arguments) w₁ values w₂
  /-- What a method gives depends on what its results convert to, and if the results are no
  references, they are all it depends on. -/
  agree : ∀ (m' : Method), m'.params = m.params → m'.ret = m.ret →
    ∀ (results : List Value) (w₁ w₂ w₁' w₂' : World) (values values' : List HostValue),
    TakenInOrder results 0 (m.places arguments) w₁ values w₂ →
    TakenInOrder results 0 (m'.places arguments) w₁' values' w₂' →
    values = values' ∨ (∀ v ∈ results, v.refs = []) →
    ∀ (ret ret' : HostValue) (after after' : List HostValue),
      m.Gives arguments values ret after → m'.Gives arguments values' ret' after' →
      ret = ret' ∧ after = after'

/-- Delegates made from functions and interfaces made from tables match arguments and results by
position. -/
theorem scripts_forward (d : Nat) {w : World} (hw : w.machine.HasFrame)
    (hdeep : w.machine.isTooDeep = false) (hsession : w.session?.isNone = false) {m : Method}
    {arguments : List HostValue} (hlength : arguments.length = m.params.length) :
    w.RunsScripts d m arguments ∧
    (∀ cls function w o w', makeDelegate cls function w = (.ok o, w') →
      ∃ signature, cls.invokeMethod? = some signature ∧
        w'.objects.get? o.index = some ⟨cls, .delegate (.script function signature)⟩) ∧
    ∀ cls table w o w', makeInterface cls table w = (.ok o, w') →
      w'.objects.get? o.index = some ⟨cls, .scriptTable table⟩ := by
  have hE := (Engine.ofDepth_framed d).run
  refine ⟨?_, fun cls function w o w' hmade => ?_, fun cls table w o w' hmade => ?_⟩
  · exact {
      delegate := fun invoked cls cls' o function f hbody hobject hfunction =>
        have hinner : (w.inDelegate ⟨cls, some o, arguments⟩ function).heldBy function =
            .function f := (World.heldBy_eq _ _ _).trans hfunction
        (callFunction_forwards (w := w.inDelegate _ function) hE hw hdeep hlength hsession
          hinner).around rfl fun _ _ _ hcall => invoke_delegate hbody hobject hcall
      interface := fun cls cls' o table f w₁ hbody hobject hfield =>
        have hself : (w.inTable arguments).heldBy table = w.heldBy table := World.heldBy_eq _ _ _
        (callTableMethod_forwards (w := w.inTable arguments) hE hw hdeep hlength hsession hself
          hfield).around rfl fun _ _ _ hcall => invoke_table (w := w) hbody hobject hcall
      missing := fun results w₁ w₂ values htaken j hj =>
        htaken.missing ((Nat.zero_add j).symm ▸ hj)
      surplus := fun results w₁ w₂ values htaken hplaces extra =>
        htaken.append ((Nat.zero_add _).symm ▸ hplaces) extra
      agree := fun m' hparams hret results w₁ w₂ w₁' w₂' values values' htaken htaken' hsame ret
          ret' after after' hgives hgives' => by
        have hplaces : m'.places arguments = m.places arguments := by
          unfold Method.places
          rw [hparams, hret]
        rw [hplaces] at htaken'
        obtain rfl : values = values' := hsame.elim id fun hr => htaken.unique hr htaken'
        exact hgives.unique hlength (hgives'.congr hparams hret) }
  · unfold makeDelegate at hmade
    cases hsignature : cls.invokeMethod? with
    | none =>
      rw [hsignature] at hmade
      cases hmade
    | some signature =>
      rw [hsignature] at hmade
      cases hmade
      exact ⟨signature, rfl, Store.get?_add_next _ _⟩
  · unfold makeInterface at hmade
    split at hmade
    · cases hmade
      exact Store.get?_add_next _ _
    · cases hmade

/-! ### A division with a remainder -/

/-- A method with two inputs and an output. -/
def divideMethod : Method where
  name := "Divide"
  declaringType := "Demo.IDivide"
  params := [⟨.int .i32, .input, none, false⟩, ⟨.int .i32, .input, none, false⟩,
    ⟨.int .i32, .output, none, false⟩]
  ret := .int .i32
  body := none

/-- A function that returns two numbers, once as a delegate and once in a table as an interface. -/
def World.dividing : World where
  tables := ⟨#[some { entries := [⟨.integer 1, .number (Number.ofInt 1), .strong (.function ⟨0⟩)⟩,
        ⟨.integer 2, .number (Number.ofInt 2), .strong (.table ⟨3⟩)⟩] },
      some {}, some { weakValues := true },
      some { entries := [⟨.text "Divide", .text "Divide", .strong (.function ⟨0⟩)⟩] }]⟩
  functions := ⟨#[some ⟨.none, .script
    [.push [.number (Number.ofInt 3), .number (Number.ofInt 2)], .return 2]⟩]⟩
  objects := ⟨#[some ⟨{ name := "Demo.Divide" }, .delegate (.script ⟨0⟩ divideMethod)⟩,
    some ⟨{ name := "Demo.IDivide" }, .scriptTable ⟨1⟩⟩]⟩
  handles := ⟨#[some ⟨0, 1⟩, some ⟨0, 2⟩]⟩
  machine := {
    id := 0, registry := ⟨0⟩, globals := ⟨1⟩, nextRef := 3, appData := .session
    session := some { id := 0, options := {}, adapters := .build, objects := ⟨2⟩ } }

/-- A call of the delegate, or of the interface. -/
def divideCall (m : Method) (o : ObjectRef) : Action CallOutcome :=
  m.invoke (.ofDepth 5) default (some o) [.int .i32 17, .int .i32 5, .null]

/-- Both give the quotient and the remainder. -/
theorem scripts_forward_dividing :
    let invoke := { divideMethod with body := some .delegateBody }
    let arguments : List HostValue := [.int .i32 17, .int .i32 5, .null]
    let divided := (Except.ok (.int .i32 3), [.int .i32 17, .int .i32 5, .int .i32 2])
    (∃ start, World.dividing.Forwards start (.ofDepth 5) ⟨0⟩ [] divideMethod arguments
      (divideCall invoke ⟨0⟩)) ∧ (divideCall invoke ⟨0⟩ .dividing).1 = divided ∧
    (∃ start, World.dividing.Forwards start (.ofDepth 5) ⟨0⟩ [.table ⟨3⟩] divideMethod arguments
      (divideCall divideMethod ⟨1⟩)) ∧ (divideCall divideMethod ⟨1⟩ .dividing).1 = divided := by
  have hframe : World.dividing.machine.HasFrame := Nat.zero_le _
  have hlength : [HostValue.int .i32 17, .int .i32 5, .null].length = 3 := rfl
  have hruns := (scripts_forward 5 (w := .dividing) (m := divideMethod) hframe (by decide)
    (by decide) hlength).1
  have htable : World.dividing.heldBy ⟨1⟩ = .table ⟨3⟩ := by decide +kernel
  have hdelegate := hruns.delegate { divideMethod with body := some .delegateBody } default _ ⟨0⟩
    ⟨0⟩ ⟨0⟩ rfl rfl (by decide +kernel)
  have hinterface := hruns.interface default _ ⟨1⟩ ⟨1⟩ ⟨0⟩ _ rfl rfl (by rw [htable]; rfl)
  rw [htable] at hinterface
  exact ⟨⟨_, hdelegate⟩, by decide +kernel, ⟨_, hinterface⟩, by decide +kernel⟩

end ScriptBridge
