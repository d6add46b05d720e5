import ScriptBridge.Proofs.Course.Oversight
import ScriptBridge.Proofs.Stack.Frame

/-!
# The discipline of calls

A call gives back the slots below its callee and the calls under way, whatever the callee's body
does: it leaves the last values of the body's frame, adjusted to the wanted number, or cuts the
stack at the callee and raises. A protected call leaves one error value there instead.

How deep calls nest is stated by a watched engine. It runs everything as the engine of the same
depth does, as long as no more calls are under way than the limit allows and one; at any point
beyond that an arbitrary engine takes over. Both engines do the same, so no run reaches such a
point.
-/

namespace ScriptBridge

/-! ## Watching the depth of calls -/

/-- No more calls are under way than the limit allows and one. -/
def World.IsWithinLimit (w : World) : Prop :=
  w.machine.frames.length ≤ w.machine.limits.maxCallDepth + 1

instance (w : World) : Decidable w.IsWithinLimit := by
  unfold World.IsWithinLimit
  infer_instance

/-- Runs the first program within the limit and the second one beyond it. -/
def within {α : Type} (x y : World → α) (w : World) : α := if w.IsWithinLimit then x w else y w

section

variable (J E : Engine)

/-- Runs operations as `runBlock` does, and watches before each and after the last. -/
def watchedBlock : List Op → Script (Option Nat)
  | [] => within (return none : Script (Option Nat)) (J.block [])
  | op :: rest => within (do
      match ← performOp E op with
      | .done => watchedBlock rest
      | .answer r =>
        addTrace r
        watchedBlock rest
      | .return n => return some n : Script (Option Nat)) (J.block (op :: rest))

/-- Runs statements as `runStatements` does, and watches before each and after the last. -/
def watchedStatements : List Stmt → Host (Option HostValue)
  | [] => within (return none : Host (Option HostValue)) (J.statements [])
  | s :: rest => within (do
      match ← s.run E with
      | some v =>
        settleBeside v.refs
        return some v
      | none =>
        settle
        watchedStatements rest : Host (Option HostValue)) (J.statements (s :: rest))

end

/-- The engine that nests to a depth, but leaves everything beyond the limit on calls to another
engine. -/
def Engine.watched (J : Engine) : Nat → Engine
  | 0 => exhausted
  | depth + 1 =>
    let E := watched J depth
    { run := fun f => within (runFunction E f) (J.run f)
      block := watchedBlock J E
      invoke := fun m cls target arguments =>
        within (m.invoke E cls target arguments) (J.invoke m cls target arguments)
      statements := watchedStatements J E
      eval := fun e => within (e.run E) (J.eval e) }

theorem Footing.At.isWithinLimit {F : Footing} {w : World} (h : F.At w) (hs : F.IsShallow) :
    w.IsWithinLimit := by
  unfold World.IsWithinLimit
  rw [h.frames, h.limits]
  exact hs

/-- Inside a frame the check of the limit never fails. -/
theorem Regime.framed_passes : Regime.framed.Passes World.IsWithinLimit := by
  rintro _ w ⟨F, -, hs, rfl⟩ hw
  exact hw.isWithinLimit hs

theorem watchedBlock_eq (J E : Engine) :
    watchedBlock J E = checkedBlock World.IsWithinLimit J E := by
  funext ops
  induction ops with
  | nil => rfl
  | cons op rest ih =>
    unfold watchedBlock checkedBlock
    rw [ih]
    rfl

theorem watchedStatements_eq (J E : Engine) :
    watchedStatements J E = checkedStatements World.IsWithinLimit J E := by
  funext body
  induction body with
  | nil => rfl
  | cons s rest ih =>
    unfold watchedStatements checkedStatements
    rw [ih]
    rfl

/-- To watch the depth of calls is to oversee the limit. -/
theorem Engine.watched_eq (J : Engine) (d : Nat) :
    watched J d = overseen World.IsWithinLimit J d := by
  induction d with
  | zero => rfl
  | succ d ih =>
    unfold watched overseen
    rw [ih]
    dsimp only
    rw [watchedBlock_eq, watchedStatements_eq]
    rfl

/-- The watched engine does inside frames what the engine does. -/
theorem Engine.watched_framed (J : Engine) (d : Nat) : (watched J d).Framed (ofDepth d) := by
  rw [watched_eq]
  exact (overseen_alike (C := .framed) (fun _ => Regime.framed_passes) J d).framed

/-! ## Calls -/

variable {w : World} {nargs wanted : Int}

theorem Machine.calleeSlot?_of_room {m : Machine} {n : Nat} (h : n < m.top) :
    m.calleeSlot? n = some (m.stack.size - (n + 1)) := by
  unfold top at h
  unfold calleeSlot?
  rw [if_pos]
  rw [Bool.and_eq_true, decide_eq_true_iff, decide_eq_true_iff]
  omega

/-- How a protected call reports an error it caught. -/
def Raise.status : Raise → Status
  | .stackOverflow => .stackOverflow
  | _ => .runtimeError

theorem protectedCall_of_ok {E : Engine} {w' : World} (h : call E nargs wanted w = .ok () w') :
    protectedCall E nargs wanted w = .ok .ok w' := by
  unfold protectedCall
  rw [bind_of_ok (x := liftM readMachine) rfl]
  rw [bind_of_ok (lift_of_eq (attempt_of_ok h))]
  rfl

theorem protectedCall_of_exhausted {E : Engine} {w' : World}
    (h : call E nargs wanted w = .error .exhausted w') :
    protectedCall E nargs wanted w = .error .exhausted w' := by
  unfold protectedCall
  rw [bind_of_ok (x := liftM readMachine) rfl]
  rw [bind_of_ok (lift_of_eq (attempt_of_error h))]
  rfl

theorem Machine.SameStack.push {m m' : Machine} (h : m.SameStack m') (v : Value) :
    (m.push v).SameStack (m'.push v) :=
  ⟨congrArg (·.push v) h.stack, h.frames, h.limits⟩

/-- A caught error is pushed where the stack was cut. -/
theorem protectedCall_of_error {E : Engine} {w' : World} {e : Raise}
    (h : call E nargs wanted w = .error e w') (he : e ≠ .exhausted) :
    ∃ w₂, protectedCall E nargs wanted w = .ok e.status w₂ ∧
      ((w'.machine.truncate
        (max (w.machine.stack.size - (nargs.toNat + 1)) w'.machine.base)).1.push
          e.toValue).SameStack w₂.machine := by
  let pos := max (w.machine.stack.size - (nargs.toNat + 1)) w'.machine.base
  have hcut := cut_sameStack w' pos []
  unfold protectedCall
  rw [bind_of_ok (x := liftM readMachine) rfl]
  rw [bind_of_ok (lift_of_eq (attempt_of_error h))]
  cases e with
  | exhausted => exact absurd rfl he
  | runtime v => exact ⟨_, rfl, .push (hcut.trans (settleBeside_sameStack v.refs _)) v⟩
  | stackOverflow => exact ⟨_, rfl, .push (hcut.trans (World.settle_sameStack _)) _⟩

/-- Nothing but the end of nesting passes a protected call. -/
theorem protectedCall_error {E : Engine} {w' : World} {e : Raise}
    (h : protectedCall E nargs wanted w = .error e w') : e = .exhausted := by
  cases hcall : call E nargs wanted w with
  | ok a w₁ =>
    rw [protectedCall_of_ok hcall] at h
    cases h
  | error e' w₁ =>
    by_cases he : e' = .exhausted
    · subst he
      rw [protectedCall_of_exhausted hcall] at h
      cases h
      rfl
    · obtain ⟨w₂, hcaught, -⟩ := protectedCall_of_error hcall he
      rw [hcaught] at h
      cases h

/-- What is left of a call: the calls under way as before, and the slots below the callee with
some values in its place. -/
def World.Left (w w' : World) (nargs : Int) (values : List Value) : Prop :=
  w'.machine.frames = w.machine.frames ∧
    w'.machine.stack.toList =
      w.machine.stack.toList.take (w.machine.stack.size - (nargs.toNat + 1)) ++ values

theorem World.left_of_cut {w' : World}
    (h : (w.machine.truncate (w.machine.stack.size - (nargs.toNat + 1))).1.SameStack w'.machine) :
    w.Left w' nargs [] := by
  refine ⟨h.frames, ?_⟩
  rw [h.stack, List.append_nil]
  exact toList_takeSlots _ _

theorem protectedCall_congr {E E' : Engine} (h : call E nargs wanted w = call E' nargs wanted w) :
    protectedCall E nargs wanted w = protectedCall E' nargs wanted w := by
  unfold protectedCall
  rw [bind_of_ok (x := liftM readMachine) rfl, bind_of_ok (x := liftM readMachine) rfl]
  cases hcall : call E nargs wanted w with
  | ok a w' =>
    rw [bind_of_ok (lift_of_eq (attempt_of_ok hcall)),
      bind_of_ok (lift_of_eq (attempt_of_ok (h.symm.trans hcall)))]
  | error e w' =>
    rw [bind_of_ok (lift_of_eq (attempt_of_error hcall)),
      bind_of_ok (lift_of_eq (attempt_of_error (h.symm.trans hcall)))]

/-- What a call leaves in the slots, under any engine that stays inside frames. -/
theorem call_left {E : Engine} (hE : ∀ f, Framed (E.run f) (E.run f)) (wanted : Int)
    (hroom : nargs.toNat < w.machine.top) :
    match call E nargs wanted w with
    | .ok () w' => ∃ f stack n w₂,
        Callee w (w.machine.stack.size - (nargs.toNat + 1)) f stack ∧
        E.run f (w.entered (w.machine.stack.size - (nargs.toNat + 1)) f stack) = .ok n w₂ ∧
        w.Left w' nargs (adjust (w₂.machine.lastValues n) wanted)
    | .error _ w' => w.Left w' nargs [] := by
  obtain ⟨e, w', hcall, -, hcut⟩ |
    ⟨f, stack, n, w₂, w', hcallee, hbody, hcall, -, hframes, -, hstack⟩ :=
      call_cases hE wanted (Machine.calleeSlot?_of_room hroom)
  · rw [hcall]
    exact World.left_of_cut hcut
  · rw [hcall]
    exact ⟨f, stack, n, w₂, hcallee, hbody, hframes, hstack⟩

/-- What a protected call leaves. -/
theorem protectedCall_left {E : Engine} (hE : ∀ f, Framed (E.run f) (E.run f))
    (hroom : nargs.toNat < w.machine.top) :
    match protectedCall E nargs wanted w with
    | .ok status w' =>
        (status = .ok ∧ call E nargs wanted w = .ok () w') ∨
        (∃ e w₁, call E nargs wanted w = .error e w₁ ∧ e ≠ .exhausted ∧
          status = e.status ∧ w.Left w' nargs [e.toValue])
    | .error e w' => e = .exhausted ∧ w.Left w' nargs [] := by
  have hleft := call_left hE wanted hroom
  cases hcall : call E nargs wanted w with
  | ok a w' =>
    rw [protectedCall_of_ok hcall]
    exact .inl ⟨rfl, rfl⟩
  | error e w' =>
    rw [hcall] at hleft
    by_cases he : e = .exhausted
    · subst he
      rw [protectedCall_of_exhausted hcall]
      exact ⟨rfl, hleft⟩
    · obtain ⟨w₂, hprotected, hsame⟩ := protectedCall_of_error hcall he
      rw [hprotected]
      have hbase : w'.machine.base = w.machine.base := by
        unfold Machine.base
        rw [hleft.1]
      have hpos : w.machine.base ≤ w.machine.stack.size - (nargs.toNat + 1) := by
        unfold Machine.top at hroom
        omega
      refine .inr ⟨e, w', rfl, he, rfl, hsame.frames.trans hleft.1, ?_⟩
      rw [hsame.stack, hbase, Nat.max_eq_left hpos]
      unfold Machine.push Machine.truncate
      rw [Array.toList_push, toList_takeSlots, hleft.2, List.append_nil, List.take_take,
        Nat.min_self]

theorem watched_call (J : Engine) (d : Nat) (hroom : nargs.toNat < w.machine.top) :
    call (.watched J d) nargs wanted w = call (.ofDepth d) nargs wanted w := by
  obtain ⟨e, w', hcall, hcall', -⟩ | ⟨f, stack, n, w₂, w', -, -, hcall, hcall', -⟩ :=
    call_cases (Engine.watched_framed J d).run wanted (Machine.calleeSlot?_of_room hroom)
  · rw [hcall, hcall']
  · rw [hcall, hcall']

theorem watched_block (J : Engine) (d : Nat) (ops : List Op)
    (hbase : w.machine.base ≤ w.machine.stack.size) (hlimit : w.IsWithinLimit) :
    (Engine.watched J d).block ops w = (Engine.ofDepth d).block ops w := by
  let F := Footing.ofMachine w.machine w.machine.base
  have hF : F.IsFrame := by
    show w.machine.base = (w.machine.stack.toList.take w.machine.base).length
    rw [List.length_take, Array.length_toList, Nat.min_eq_left hbase]
  exact ((Engine.watched_framed J d).block ops F hF hlimit w
    (Footing.ofMachine_holds _ _)).1

/-- The discipline of calls. A call whose callee and arguments are in the frame leaves the last
values that the body of the callee returned, as many as its frame held, adjusted to the wanted
number; when anything is raised it leaves nothing. A protected call leaves the error it caught.
In a run of either, and of any block of operations, no more calls are under way at any point than
the limit allows and one. -/
theorem call_discipline (d : Nat) (w : World) (nargs wanted : Int)
    (hroom : nargs.toNat < w.machine.top) :
    (match call (.ofDepth d) nargs wanted w with
      | .ok () w' => ∃ f stack n w₂,
          Callee w (w.machine.stack.size - (nargs.toNat + 1)) f stack ∧
          (Engine.ofDepth d).run f
            (w.entered (w.machine.stack.size - (nargs.toNat + 1)) f stack) = .ok n w₂ ∧
          w.Left w' nargs (adjust (w₂.machine.lastValues n) wanted)
      | .error _ w' => w.Left w' nargs []) ∧
    (match protectedCall (.ofDepth d) nargs wanted w with
      | .ok status w' =>
          (status = .ok ∧ call (.ofDepth d) nargs wanted w = .ok () w') ∨
          (∃ e w₁, call (.ofDepth d) nargs wanted w = .error e w₁ ∧ e ≠ .exhausted ∧
            status = e.status ∧ w.Left w' nargs [e.toValue])
      | .error e w' => e = .exhausted ∧ w.Left w' nargs []) ∧
    (∀ J : Engine,
      call (.watched J d) nargs wanted w = call (.ofDepth d) nargs wanted w ∧
      protectedCall (.watched J d) nargs wanted w = protectedCall (.ofDepth d) nargs wanted w ∧
      ∀ ops, w.IsWithinLimit →
        (Engine.watched J d).block ops w = (Engine.ofDepth d).block ops w) := by
  refine ⟨call_left (Engine.ofDepth_framed d).run wanted hroom,
    protectedCall_left (Engine.ofDepth_framed d).run hroom, fun J => ⟨watched_call J d hroom,
      protectedCall_congr (watched_call J d hroom), fun ops => watched_block J d ops ?_⟩⟩
  unfold Machine.top at hroom
  omega

/-- A machine about to call a function that pushes two tables and returns the last one. -/
def World.pushing : World where
  functions := .add {} ⟨.none, .script [.pushGlobals, .pushRegistry, .return 1]⟩
  machine := { (default : Machine) with stack := #[.text "below", .function ⟨0⟩] }

/-- Two results are wanted in place of the function, above the text. -/
theorem call_discipline_pushing :
    (0 : Int).toNat < World.pushing.machine.top ∧
    (match call (.ofDepth 3) 0 2 World.pushing with
      | .ok () w' => w'.machine.stack.toList.length = 3
      | .error _ w' => w'.machine.stack.toList = [.text "below"]) ∧
    ∀ J : Engine, call (.watched J 3) 0 2 World.pushing = call (.ofDepth 3) 0 2 World.pushing := by
  have hroom : (0 : Int).toNat < World.pushing.machine.top := by decide
  obtain ⟨hcall, -, hdepth⟩ := call_discipline 3 World.pushing 0 2 hroom
  refine ⟨hroom, ?_, fun J => (hdepth J).1⟩
  cases hrun : call (.ofDepth 3) 0 2 World.pushing with
  | ok _ w' =>
    rw [hrun] at hcall
    obtain ⟨f, stack, n, w₂, -, -, -, hstack⟩ := hcall
    show w'.machine.stack.toList.length = 3
    rw [hstack, List.length_append, length_adjust _ (by decide)]
    rfl
  | error e w' =>
    rw [hrun] at hcall
    exact hcall.2

end ScriptBridge
