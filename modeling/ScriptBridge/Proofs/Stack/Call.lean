import ScriptBridge.Proofs.Stack.Footing

/-!
# What a call does to the stack

The callee is a function or has a `__call` handler, which is put below it. Its body runs in a
frame of its own above the callee's slot; when it is done, that slot and everything above it give
way to the results. The lemmas follow a call through these steps.
-/

namespace ScriptBridge

/-! ## The callee -/

/-- The function that a call of the value in a slot runs, with the stack it runs over: the
function itself, or the `__call` handler put below the value. -/
inductive Callee (w : World) (pos : Nat) : FunctionRef → Array Value → Prop where
  | function {f : FunctionRef} (h : w.machine.stack.getD pos .nil = .function f) :
      Callee w pos f w.machine.stack
  | handler {f : FunctionRef} (h : ∀ g, w.machine.stack.getD pos .nil ≠ .function g)
      (hf : w.metafieldOf (w.machine.stack.getD pos .nil) "__call" = .function f) :
      Callee w pos f (w.machine.stack.insertIdxIfInBounds pos (.function f))

variable {w : World} {pos : Nat} {f : FunctionRef} {stack : Array Value}

/-- The function is in the callee's slot, above the slots that were there. -/
theorem Callee.below (h : Callee w pos f stack) (hpos : pos < w.machine.stack.size) :
    w.machine.stack.toList.take pos ++ [.function f] <+: stack.toList := by
  have hlen : pos < w.machine.stack.toList.length := by rwa [Array.length_toList]
  cases h with
  | function h =>
    have hget : w.machine.stack.toList[pos] = .function f := by
      rw [← h, Array.getElem_toList, Array.getD_eq_getD_getElem?,
        Array.getElem?_eq_getElem hpos, Option.getD_some]
    rw [← hget, ← List.take_succ_eq_append_getElem hlen]
    exact List.take_prefix _ _
  | handler h hf =>
    rw [toList_insertSlot, insertIdx_eq_append _ _ (Nat.le_of_lt hlen)]
    exact ⟨w.machine.stack.toList.drop pos, by rw [List.append_assoc]; rfl⟩

theorem Callee.take (h : Callee w pos f stack) (hpos : pos < w.machine.stack.size) :
    stack.toList.take pos = w.machine.stack.toList.take pos := by
  have hlen : (w.machine.stack.toList.take pos).length = pos := by
    rw [List.length_take, Array.length_toList]
    omega
  obtain ⟨rest, hrest⟩ := h.below hpos
  rw [← hrest, List.append_assoc, List.take_append_of_le_length (Nat.le_of_eq hlen.symm),
    List.take_of_length_le (Nat.le_of_eq hlen)]

/-! ## Looking for it -/

/-- What is raised for a value that cannot be called. -/
theorem notCallable_eq (w : World) (pos : Nat) (refs : List Ref) (message : String) :
    ∃ e w', (do
        cut pos refs
        settle
        raiseAt 0 message : Script FunctionRef) w = .error e w' ∧
      (w.machine.truncate pos).1.SameStack w'.machine := by
  let w₁ := (settle (cut pos refs w).2).2
  have hcut : (w.machine.truncate pos).1.SameStack w₁.machine :=
    (cut_sameStack w pos refs).trans (World.settle_sameStack _)
  exact ⟨_, _, rfl, hcut⟩

/-- Looking for the callee finds it, or cuts the stack at its slot and raises. -/
theorem calleeAt_eq (w : World) (pos : Nat) :
    (∃ f stack, Callee w pos f stack ∧
      calleeAt pos w = .ok f { w with machine := { w.machine with stack } }) ∨
    (∃ e w', calleeAt pos w = .error e w' ∧
      (w.machine.truncate pos).1.SameStack w'.machine) := by
  unfold calleeAt
  rw [get_bind]
  generalize hv : w.machine.stack.getD pos .nil = v
  by_cases h : ∃ f, v = .function f
  · obtain ⟨f, rfl⟩ := h
    exact .inl ⟨f, _, .function hv, rfl⟩
  -- Any other callee stands for the `__call` handler of its metatable.
  generalize hm : w.metafieldOf v "__call" = handler
  have hcallee : ∀ f, handler = .function f → Callee w pos f
      (w.machine.stack.insertIdxIfInBounds pos (.function f)) := by
    intro f hf
    refine .handler (fun g hg => h ⟨g, hv.symm.trans hg⟩) ?_
    rw [hv]
    exact hm.trans hf
  obtain ⟨e, w', hraise, hcut⟩ := notCallable_eq w pos v.refs
    ("attempt to call a " ++ v.typeName ++ " value")
  cases v with
  | function f => exact absurd ⟨f, rfl⟩ h
  | _ =>
    dsimp only
    rw [hm]
    cases handler with
    | function f => exact .inl ⟨f, _, hcallee f rfl, rfl⟩
    | _ => exact .inr ⟨e, w', hraise, hcut⟩

/-- A callee that is there is found. -/
theorem Callee.calleeAt (h : Callee w pos f stack) :
    calleeAt pos w = .ok f { w with machine := { w.machine with stack } } := by
  unfold ScriptBridge.calleeAt
  rw [get_bind]
  cases h with
  | function h =>
    rw [h]
    rfl
  | handler h hf =>
    generalize w.machine.stack.getD pos .nil = v at h hf
    cases v with
    | function g => exact absurd rfl (h g)
    | _ =>
      dsimp only
      rw [hf]
      rfl

/-! ## Results -/

/-- The results of a body: the last values of its frame, as many as it gave, or all there are. -/
def Machine.lastValues (m : Machine) (n : Nat) : List Value :=
  m.stack.toList.drop (m.stack.size - min n m.top)

/-- Values cut, or filled up with nil, to a number of them unless that is negative. -/
def adjust (vs : List Value) (wanted : Int) : List Value :=
  if 0 ≤ wanted then vs.take wanted.toNat ++ List.replicate (wanted.toNat - vs.length) .nil else vs

theorem length_adjust (vs : List Value) {wanted : Int} (h : 0 ≤ wanted) :
    (adjust vs wanted).length = wanted.toNat := by
  rw [adjust, if_pos h, List.length_append, List.length_take, List.length_replicate]
  omega

/-- A resized stack is cut or filled up above any position below its new end. -/
theorem Machine.resize_stack (m : Machine) (below vs : List Value)
    (h : m.stack.toList = below ++ vs) {wanted : Int} (hw : 0 ≤ wanted) :
    (m.resize (below.length + wanted.toNat)).1.stack.toList = below ++ adjust vs wanted := by
  have hsize : m.stack.size = below.length + vs.length := by
    rw [← Array.length_toList, h, List.length_append]
  rw [adjust, if_pos hw]
  unfold resize
  split
  · have hlen : wanted.toNat - vs.length = 0 := by omega
    rw [hlen, List.replicate_zero, List.append_nil]
    show (m.stack.take _).toList = _
    rw [toList_takeSlots, h, List.take_length_add_append]
  · have hlen : vs.length ≤ wanted.toNat := by omega
    show (m.stack ++ Array.replicate _ _).toList = _
    rw [Array.toList_append, Array.toList_replicate, h, List.take_of_length_le hlen,
      List.append_assoc, hsize, Nat.add_sub_add_left]

/-- Returning puts the adjusted results in place of the slots from a position on. -/
theorem Machine.returnResults_stack (m : Machine) (pos n : Nat) (wanted : Int)
    (hpos : pos < m.stack.size) :
    (m.returnResults pos n wanted).1.stack.toList =
      m.stack.toList.take pos ++
        adjust (m.stack.toList.drop (m.stack.size - min n (m.stack.size - (pos + 1)))) wanted := by
  have hlen : (m.stack.toList.take pos).length = pos := by
    rw [List.length_take, Array.length_toList]
    omega
  generalize hk : min n (m.stack.size - (pos + 1)) = k
  have hresults : (m.stack.extract (m.stack.size - k) m.stack.size).toList =
      m.stack.toList.drop (m.stack.size - k) := by
    have hdrop : (m.stack.toList.drop (m.stack.size - k)).length =
        m.stack.size - (m.stack.size - k) := by
      rw [List.length_drop, Array.length_toList]
    rw [Array.toList_extract, List.extract_eq_take_drop,
      List.take_of_length_le (Nat.le_of_eq hdrop)]
  have hbelow : ((m.stack.take (m.stack.size - k)).take pos).toList = m.stack.toList.take pos := by
    rw [toList_takeSlots, toList_takeSlots, List.take_take, Nat.min_eq_left (by omega)]
  have hjoined : (((m.stack.take (m.stack.size - k)).take pos) ++
      m.stack.extract (m.stack.size - k) m.stack.size).toList =
      m.stack.toList.take pos ++ m.stack.toList.drop (m.stack.size - k) := by
    rw [Array.toList_append, hbelow, hresults]
  unfold returnResults truncate
  dsimp only
  rw [hk]
  split
  · rename_i hw
    have := Machine.resize_stack { m with stack := _ } _ _ hjoined hw
    rw [hlen] at this
    exact this
  · rename_i hw
    rw [adjust, if_neg hw]
    exact hjoined

theorem Machine.returnResults_frames (m : Machine) (pos n : Nat) (wanted : Int) :
    (m.returnResults pos n wanted).1.frames = m.frames := by
  unfold returnResults
  dsimp only
  split
  · unfold resize
    split <;> rfl
  · rfl

theorem Machine.returnResults_limits (m : Machine) (pos n : Nat) (wanted : Int) :
    (m.returnResults pos n wanted).1.limits = m.limits := by
  unfold returnResults
  dsimp only
  split
  · unfold resize
    split <;> rfl
  · rfl

/-! ## Around the body -/

/-- The world in which the body of a callee starts. -/
def World.entered (w : World) (pos : Nat) (f : FunctionRef) (stack : Array Value) : World :=
  { w with
    machine := { w.machine with stack, frames := ⟨pos + 1, some f⟩ :: w.machine.frames } }

/-- What a call does after the body of its callee. -/
def leaveCall (pos : Nat) (f : FunctionRef) (wanted : Int) (outcome : Except Raise Nat) :
    Script Unit := do
  modifyMachine Machine.popFrame
  match outcome with
  | .ok n =>
    let dropped ← modifyGet fun w =>
      let (m, vs) := w.machine.returnResults pos n wanted
      (vs, { w with machine := m })
    release (dropped.flatMap Value.refs ++ [.function f])
  | .error e =>
    cut pos [.function f]
    settleBeside e.refs
    throw e

/-- What a call does when one more would be too deep. -/
def overflow (pos : Nat) (f : FunctionRef) : Script Unit := do
  cut pos [.function f]
  settle
  throw .stackOverflow

section

variable (E : Engine) {nargs : Int} (wanted : Int) {w₁ : World}

theorem call_of_noSlot (h : w.machine.calleeSlot? nargs.toNat = none) :
    call E nargs wanted w =
      raiseMessage "not enough values on the stack for call" w := by
  unfold call
  rw [bind_of_ok (x := liftM readMachine) rfl]
  dsimp only
  rw [h]

theorem call_of_noCallee {e : Raise} (h : w.machine.calleeSlot? nargs.toNat = some pos)
    (hcallee : calleeAt pos w = .error e w₁) : call E nargs wanted w = .error e w₁ := by
  unfold call
  rw [bind_of_ok (x := liftM readMachine) rfl]
  dsimp only
  rw [h]
  exact bind_of_error hcallee

theorem call_of_tooDeep (h : w.machine.calleeSlot? nargs.toNat = some pos)
    (hcallee : calleeAt pos w = .ok f w₁) (hdeep : w₁.machine.isTooDeep = true) :
    call E nargs wanted w = overflow pos f w₁ := by
  unfold call
  rw [bind_of_ok (x := liftM readMachine) rfl]
  dsimp only
  rw [h]
  dsimp only
  rw [bind_of_ok hcallee, bind_of_ok (x := liftM readMachine) rfl, if_pos hdeep]
  rfl

theorem call_of_callee (h : w.machine.calleeSlot? nargs.toNat = some pos)
    (hcallee : calleeAt pos w = .ok f { w with machine := { w.machine with stack } })
    (hdeep : w.machine.isTooDeep = false) :
    call E nargs wanted w =
      (do leaveCall pos f wanted (← attempt (E.run f)) : Script Unit)
        (w.entered pos f stack) := by
  unfold call
  rw [bind_of_ok (x := liftM readMachine) rfl]
  dsimp only
  rw [h]
  dsimp only
  rw [bind_of_ok hcallee, bind_of_ok (x := liftM readMachine) rfl, if_neg]
  · rfl
  · rw [Bool.not_eq_true]
    exact hdeep

end

theorem overflow_eq (w : World) (pos : Nat) (f : FunctionRef) :
    ∃ w', overflow pos f w = .error .stackOverflow w' ∧
      (w.machine.truncate pos).1.SameStack w'.machine :=
  ⟨_, rfl, (cut_sameStack w pos _).trans (World.settle_sameStack _)⟩

theorem leaveCall_ok (w : World) (pos : Nat) (f : FunctionRef) (wanted : Int) (n : Nat) :
    ∃ w', leaveCall pos f wanted (.ok n) w = .ok () w' ∧
      (w.machine.popFrame.returnResults pos n wanted).1.SameStack w'.machine := by
  let w₁ : World := { w with machine := (w.machine.popFrame.returnResults pos n wanted).1 }
  exact ⟨_, rfl, release_sameStack _ _ w₁⟩

theorem leaveCall_error (w : World) (pos : Nat) (f : FunctionRef) (wanted : Int) (e : Raise) :
    ∃ w', leaveCall pos f wanted (.error e) w = .error e w' ∧
      (w.machine.popFrame.truncate pos).1.SameStack w'.machine := by
  let w₁ : World := { w with machine := w.machine.popFrame }
  exact ⟨_, rfl, (cut_sameStack w₁ pos _).trans (settleBeside_sameStack _ _)⟩

/-! ## Two engines -/

/-- Inside every frame whatever one engine runs the other runs in the same way, and it keeps what
is below the frame. -/
structure Engine.Framed (E E' : Engine) : Prop where
  run : ∀ f, ScriptBridge.Framed (E.run f) (E'.run f)
  block : ∀ ops, ScriptBridge.Framed (E.block ops) (E'.block ops)
  invoke : ∀ m cls target arguments,
    ScriptBridge.Framed (E.invoke m cls target arguments) (E'.invoke m cls target arguments)
  statements : ∀ body, ScriptBridge.Framed (E.statements body) (E'.statements body)
  eval : ∀ e, ScriptBridge.Framed (E.eval e) (E'.eval e)

/-- The footing of the body of a callee. -/
def World.enteredFooting (w : World) (pos : Nat) (f : FunctionRef) : Footing where
  frames := ⟨pos + 1, some f⟩ :: w.machine.frames
  limits := w.machine.limits
  below := w.machine.stack.toList.take pos ++ [.function f]

theorem World.length_take (w : World) (hpos : pos < w.machine.stack.size) :
    (w.machine.stack.toList.take pos).length = pos := by
  rw [List.length_take, Array.length_toList]
  omega

theorem World.length_enteredFooting (f : FunctionRef) (hpos : pos < w.machine.stack.size) :
    (w.enteredFooting pos f).below.length = pos + 1 := by
  unfold enteredFooting
  rw [List.length_append, w.length_take hpos, List.length_singleton]

theorem World.enteredFooting_isFrame (f : FunctionRef) (hpos : pos < w.machine.stack.size) :
    (w.enteredFooting pos f).IsFrame :=
  (World.length_enteredFooting f hpos).symm

theorem World.enteredFooting_isShallow (pos : Nat) (f : FunctionRef)
    (h : w.machine.isTooDeep = false) : (w.enteredFooting pos f).IsShallow := by
  have hle : w.machine.frames.length ≤ w.machine.limits.maxCallDepth := by
    unfold Machine.isTooDeep at h
    exact Nat.le_of_not_lt (of_decide_eq_false h)
  exact Nat.succ_le_succ hle

theorem World.entered_at (h : Callee w pos f stack) (hpos : pos < w.machine.stack.size) :
    (w.enteredFooting pos f).At (w.entered pos f stack) :=
  ⟨rfl, rfl, h.below hpos⟩

/-- Back from the body of a callee the calls are as before, and so are the slots below the
callee. -/
theorem World.left_of_entered {w₂ : World} (h : (w.enteredFooting pos f).At w₂)
    (hpos : pos < w.machine.stack.size) :
    w₂.machine.popFrame.frames = w.machine.frames ∧ pos < w₂.machine.stack.size ∧
      w₂.machine.stack.toList.take pos = w.machine.stack.toList.take pos := by
  have hlength := World.length_enteredFooting f hpos
  have hsize := h.length_le
  refine ⟨?_, by omega, ?_⟩
  · unfold Machine.popFrame
    rw [h.frames]
    rfl
  · obtain ⟨rest, hrest⟩ := h.below
    have hlen := w.length_take hpos
    rw [← hrest]
    unfold enteredFooting
    rw [List.append_assoc, List.take_append_of_le_length (Nat.le_of_eq hlen.symm),
      List.take_of_length_le (Nat.le_of_eq hlen)]

/-- What is cut at a slot does not depend on the slots above it. -/
theorem Machine.SameStack.of_take {m m₂ m' : Machine} (h : (m₂.truncate pos).1.SameStack m')
    (hf : m₂.frames = m.frames) (hl : m₂.limits = m.limits)
    (ht : m₂.stack.toList.take pos = m.stack.toList.take pos) :
    (m.truncate pos).1.SameStack m' := by
  have htake : m₂.stack.take pos = m.stack.take pos := by
    rw [← Array.toList_inj, toList_takeSlots, toList_takeSlots, ht]
  exact ⟨h.stack.trans htake, h.frames.trans hf, h.limits.trans hl⟩

/-- The slot of a callee holds a value. -/
theorem Machine.calleeSlot?_lt {m : Machine} {nargs : Nat} (h : m.calleeSlot? nargs = some pos) :
    pos < m.stack.size ∧ m.base ≤ pos := by
  unfold calleeSlot? at h
  split at h
  · rename_i hroom
    rw [Bool.and_eq_true, decide_eq_true_iff, decide_eq_true_iff] at hroom
    cases h
    omega
  · cases h

section

variable {E E' : Engine} {nargs wanted : Int} (hE : ∀ f, Framed (E.run f) (E'.run f))

include hE

/-- A call whose callee returned: the adjusted results are in the callee's slot. -/
theorem call_of_returned (wanted : Int) (hslot : w.machine.calleeSlot? nargs.toNat = some pos)
    (hcallee : Callee w pos f stack) (hdeep : w.machine.isTooDeep = false) {n : Nat} {w₂ : World}
    (hbody : E.run f (w.entered pos f stack) = .ok n w₂) :
    ∃ w', call E nargs wanted w = .ok () w' ∧ w'.machine.frames = w.machine.frames ∧
      w'.machine.limits = w.machine.limits ∧ w'.machine.stack.toList =
        w.machine.stack.toList.take pos ++ adjust (w₂.machine.lastValues n) wanted := by
  obtain ⟨hpos, -⟩ := Machine.calleeSlot?_lt hslot
  obtain ⟨-, hafter⟩ := hE f _ (World.enteredFooting_isFrame f hpos)
    (World.enteredFooting_isShallow pos f hdeep) _ (World.entered_at hcallee hpos)
  rw [hbody] at hafter
  change (w.enteredFooting pos f).At w₂ at hafter
  obtain ⟨hframes, hsize, htake⟩ := World.left_of_entered hafter hpos
  obtain ⟨w', hleave, hstack⟩ := leaveCall_ok w₂ pos f wanted n
  refine ⟨w', ?_, ?_, ?_, ?_⟩
  · rw [call_of_callee E wanted hslot hcallee.calleeAt hdeep,
      bind_of_ok (lift_of_eq (attempt_of_ok hbody))]
    exact hleave
  · rw [hstack.frames, Machine.returnResults_frames, hframes]
  · rw [hstack.limits, Machine.returnResults_limits]
    exact hafter.limits
  · have hresults := Machine.returnResults_stack w₂.machine.popFrame pos n wanted hsize
    have hbase : w₂.machine.base = pos + 1 :=
      (hafter.base_eq (World.enteredFooting_isFrame f hpos)).trans
        (World.length_enteredFooting f hpos)
    unfold Machine.lastValues Machine.top
    rw [hstack.stack, hresults, hbase, ← htake]
    rfl

/-- A call under two engines that do the same inside frames: it fails with the stack cut at the
callee's slot, or the body of the callee ran to its end and its adjusted results are in that
slot. -/
theorem call_cases (wanted : Int) (hslot : w.machine.calleeSlot? nargs.toNat = some pos) :
    (∃ e w', call E nargs wanted w = .error e w' ∧ call E' nargs wanted w = .error e w' ∧
      (w.machine.truncate pos).1.SameStack w'.machine) ∨
    (∃ f stack n w₂ w', Callee w pos f stack ∧
      E.run f (w.entered pos f stack) = .ok n w₂ ∧
      call E nargs wanted w = .ok () w' ∧ call E' nargs wanted w = .ok () w' ∧
      w'.machine.frames = w.machine.frames ∧ w'.machine.limits = w.machine.limits ∧
      w'.machine.stack.toList =
        w.machine.stack.toList.take pos ++ adjust (w₂.machine.lastValues n) wanted) := by
  obtain ⟨hpos, -⟩ := Machine.calleeSlot?_lt hslot
  obtain ⟨f, stack, hcallee, hfound⟩ | ⟨e, w₁, hfail, hcut⟩ := calleeAt_eq w pos
  · cases hdeep : w.machine.isTooDeep with
    | true =>
      let w₁ : World := { w with machine := { w.machine with stack } }
      have hdeep' : w₁.machine.isTooDeep = true := hdeep
      obtain ⟨w', hover, hcut⟩ := overflow_eq w₁ pos f
      refine .inl ⟨_, w', (call_of_tooDeep E wanted hslot hfound hdeep').trans hover,
        (call_of_tooDeep E' wanted hslot hfound hdeep').trans hover, ?_⟩
      exact hcut.of_take rfl rfl (hcallee.take hpos)
    | false =>
      have hrun := call_of_callee E wanted hslot hfound hdeep
      have hrun' := call_of_callee E' wanted hslot hfound hdeep
      obtain ⟨hsame, hafter⟩ := hE f _ (World.enteredFooting_isFrame f hpos)
        (World.enteredFooting_isShallow pos f hdeep) _ (World.entered_at hcallee hpos)
      cases hbody : E.run f (w.entered pos f stack) with
      | ok n w₂ =>
        rw [hbody] at hsame
        obtain ⟨w', hcall, hleft⟩ := call_of_returned hE wanted hslot hcallee hdeep hbody
        refine .inr ⟨f, stack, n, w₂, w', hcallee, hbody, hcall, ?_, hleft⟩
        rw [hrun', bind_of_ok (lift_of_eq (attempt_of_ok hsame.symm)), ← hcall, hrun,
          bind_of_ok (lift_of_eq (attempt_of_ok hbody))]
      | error e w₂ =>
        rw [hbody] at hafter hsame
        change (w.enteredFooting pos f).At w₂ at hafter
        obtain ⟨hframes, hsize, htake⟩ := World.left_of_entered hafter hpos
        obtain ⟨w', hleave, hstack⟩ := leaveCall_error w₂ pos f wanted e
        have hleft (x : Script Nat) (h : x (w.entered pos f stack) = .error e w₂) :
            (do leaveCall pos f wanted (← attempt x) : Script Unit) (w.entered pos f stack) =
              .error e w' := by
          rw [bind_of_ok (lift_of_eq (attempt_of_error h))]
          exact hleave
        exact .inl ⟨e, w', hrun.trans (hleft _ hbody), hrun'.trans (hleft _ hsame.symm),
          hstack.of_take hframes hafter.limits htake⟩
  · exact .inl ⟨e, w₁, call_of_noCallee E wanted hslot hfail,
      call_of_noCallee E' wanted hslot hfail, hcut⟩

/-- A call keeps what is below the frame that makes it. -/
theorem framed_call :
    Framed (call E nargs wanted) (call E' nargs wanted) := by
  intro F hF _ w hw
  cases hslot : w.machine.calleeSlot? nargs.toNat with
  | none =>
    rw [call_of_noSlot E wanted hslot, call_of_noSlot E' wanted hslot]
    exact ⟨rfl, hw⟩
  | some pos =>
    obtain ⟨hpos, hbase⟩ := Machine.calleeSlot?_lt hslot
    rw [hw.base_eq hF] at hbase
    obtain ⟨e, w', hcall, hcall', hcut⟩ |
      ⟨f, stack, n, w₂, w', _, _, hcall, hcall', hframes, hlimits, hstack⟩ :=
        call_cases hE wanted hslot
    · rw [hcall, hcall']
      exact ⟨rfl, (hw.truncate hbase).of_sameStack hcut⟩
    · rw [hcall, hcall']
      refine ⟨rfl, hframes.trans hw.frames, hlimits.trans hw.limits, ?_⟩
      show F.below <+: w'.machine.stack.toList
      rw [hstack]
      exact (List.prefix_take_iff.mpr ⟨hw.below, hbase⟩).trans (List.prefix_append _ _)

end

end ScriptBridge
