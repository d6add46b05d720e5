import ScriptBridge.Proofs.Host.Catalog
import ScriptBridge.Proofs.Memory.Settle
import ScriptBridge.Proofs.Stack.Untouched

/-!
# Courses of a world

Whatever a session runs, the world changes in small steps of few kinds (`Step`). A `Course` is a
sequence of them in which calls and host bodies are nested: what was entered is left again. Any
program of a session follows a course, so what each kind of step keeps is kept by every program.

1. `Step` says all that a single change can do, but for a look-up that the session remembers.
   Userdata that are taken from a graveyard come back with their payloads, so a step also tells what
   was taken so far.
2. `Course` puts steps and look-ups together. Only inside a host body do the arguments of the
   running activation change, and there no other activation does.
3. A `Stable` property is one that steps and look-ups keep, wherever calls and bodies are nested. A
   course keeps it.
-/

namespace ScriptBridge

variable {w w' w₁ w₂ : World} {b b' b₁ b₂ : List Pending} {own : Bool}

/-! ## Steps -/

/-- A session that keeps its identity, its options, its registry and the members it remembers. Its
classes still stand under their own names, and it may know more constructors. -/
structure Session.Grows (s s' : Session) : Prop where
  id : s'.id = s.id
  options : s'.options = s.options
  adapters : s'.adapters = s.adapters
  catalog : s.catalog.IsKeyed → s'.catalog.IsKeyed
  registry : s'.registry = s.registry
  objects : s'.objects = s.objects
  members : s'.members = s.members
  constructors : ∀ name d, s.constructors.get? name = some d → s'.constructors.get? name = some d

/-- What a session keeps for good. -/
def Session.lasting (s : Session) : Nat × Options × AdapterPolicy × Catalog × Registry × TableRef ×
    Dictionary (String × Binding × String) FoundMember × Dictionary String DispatcherRef :=
  (s.id, s.options, s.adapters, s.catalog, s.registry, s.objects, s.members, s.constructors)

theorem Session.Grows.of_lasting {s s' : Session} (h : s'.lasting = s.lasting) : s.Grows s' := by
  simp only [lasting, Prod.mk.injEq] at h
  obtain ⟨hid, hoptions, hadapters, hcatalog, hregistry, hobjects, hmembers, hconstructors⟩ := h
  refine ⟨hid, hoptions, hadapters, fun hk => hcatalog ▸ hk, hregistry, hobjects, hmembers,
    fun _ _ hk => ?_⟩
  rw [hconstructors]
  exact hk

/-- A change of a world. Beside the world it has the userdata that were taken from the graveyard so
far. -/
inductive World.Step : World → List Pending → World → List Pending → Prop
  | machine {w : World} {b : List Pending} (nextRef : Int) (appData : AppData) :
      Step w b { w with machine := { w.machine with nextRef, appData } } b
  | books {w : World} {b : List Pending} (named : Dictionary String Exception)
      (nextException : Nat) (kept : Dictionary String Value)
      (bindings : Dictionary String HostValue) (wrappers : Dictionary String DispatcherRef)
      (held : List Ref) (dropped : List Dropped) (trace : Array Report) :
      Step w b { w with named, nextException, kept, bindings, wrappers, held, dropped, trace } b
  | session {w : World} {b : List Pending} (f : Session → Session)
      (h : ∀ s, w.machine.session = some s → s.Grows (f s)) :
      Step w b { w with machine := { w.machine with session := w.machine.session.map f } } b
  | registry {w : World} {b : List Pending} (r : Registry)
      (h : ∀ s, w.machine.session = some s →
        (∃ o, r = (s.registry.expose ObjectRef.index o).2) ∨
          ∃ id, r = (s.registry.revoke ObjectRef.index id).2) :
      Step w b { w with
        machine := { w.machine with
          session := w.machine.session.map fun s => { s with registry := r } } } b
  | newTable {w : World} {b : List Pending} (t : Table) :
      Step w b { w with tables := w.tables.add t } b
  | setTable {w : World} {b : List Pending} (t : TableRef) (table : Table) :
      Step w b { w with tables := w.tables.modify t.index fun _ => table } b
  | newFunction {w : World} {b : List Pending} (f : Function) :
      Step w b { w with functions := w.functions.add f } b
  | newUserdata {w : World} {b : List Pending} (payload : Payload) (metatable : Option TableRef)
      (h : ∀ id, payload ≠ .proxy id) :
      Step w b { w with
        userdata := w.userdata.add { payload, metatable, home := w.machine.id } } b
  /-- A proxy is made for an object that is not blacklisted. -/
  | newProxy {w : World} {b : List Pending} (id : Nat) (metatable : Option TableRef)
      (h : ∀ s, w.machine.session = some s → ∃ o cell,
        s.registry.idOf? ObjectRef.index o = some id ∧ w.objects.get? o.index = some cell ∧
          s.options.isBlacklisted cell.cls.namespaceName = false) :
      Step w b { w with
        userdata := w.userdata.add { payload := .proxy id, metatable, home := w.machine.id } } b
  /-- A userdata comes back for its finalizer. -/
  | revive {w : World} {b : List Pending} (p : Pending) (h : p ∈ b) :
      Step w b { w with
        userdata := w.userdata.add
          { payload := p.payload, metatable := some p.metatable, home := w.machine.id,
            finalized := true } } b
  | setMetatable {w : World} {b : List Pending} (u : UserdataRef) (metatable : Option TableRef) :
      Step w b { w with userdata := w.userdata.modify u.index ({ · with metatable }) } b
  | newObject {w : World} {b : List Pending} (cls : Class) (data : ObjectData) :
      Step w b { w with objects := w.objects.add { cls, data } } b
  | setObject {w : World} {b : List Pending} (o : ObjectRef) (data : ObjectData) :
      Step w b { w with objects := w.objects.modify o.index ({ · with data }) } b
  | newHandle {w : World} {b : List Pending} (h : Handle) :
      Step w b { w with handles := w.handles.add h } b
  | newDispatcher {w : World} {b : List Pending} (d : Dispatcher) :
      Step w b { w with dispatchers := w.dispatchers.add d } b
  | setPlan {w : World} {b : List Pending} (d : DispatcherRef) (plan : Option Plan) :
      Step w b { w with dispatchers := w.dispatchers.modify d.index ({ · with plan }) } b
  | newCell {w : World} {b : List Pending} (c : Cell) :
      Step w b { w with cells := w.cells.add c } b
  | setCell {w : World} {b : List Pending} (c : CellRef) (cell : Cell) :
      Step w b { w with cells := w.cells.modify c.index fun _ => cell } b
  | takeGraveyard {w : World} {b : List Pending} :
      Step w b { w with machine := { w.machine with graveyard := [] } } (b ++ w.machine.graveyard)
  /-- A cell that nothing holds goes. -/
  | reclaim {w : World} {b : List Pending} (d : Dropped) (rest : List Dropped)
      (hfirst : w.dropped = d :: rest) (hfree : w.holds d.ref = false) :
      Step w b (w.reclaimed d rest) b

/-- The running session remembers one more member. -/
def World.learned (w : World) (key : String × Binding × String) (found : FoundMember) : World :=
  { w with
    machine := { w.machine with
      session := w.machine.session.map fun s =>
        { s with members := s.members.insert key found } } }

/-! ## Courses -/

/-- A sequence of changes. It may change the arguments of the running activation if that is its
`own`; frames and activations that it enters it leaves again. -/
inductive World.Course : Bool → World → List Pending → World → List Pending → Prop
  | refl {own : Bool} (w : World) (b : List Pending) : Course own w b w b
  | step {own : Bool} {w w' : World} {b b' : List Pending} (h : w.Step b w' b') :
      Course own w b w' b'
  | learned {own : Bool} {w : World} {b : List Pending} (key : String × Binding × String)
      (found : FoundMember)
      (h : ∀ s, w.machine.session = some s → s.members.get? key = none) :
      Course own w b (w.learned key found) b
  | stack {own : Bool} {w : World} {b : List Pending} (stack : Array Value) :
      Course own w b { w with machine := { w.machine with stack } } b
  | trans {own : Bool} {w w₁ w₂ : World} {b b₁ b₂ : List Pending} (h : Course own w b w₁ b₁)
      (h' : Course own w₁ b₁ w₂ b₂) : Course own w b w₂ b₂
  | arguments {w : World} {b : List Pending} {a : Activation} {rest : List Activation}
      (h : w.activations = a :: rest) (arguments : List HostValue) :
      Course true w b { w with activations := { a with arguments } :: rest } b
  | called {own : Bool} {w w₁ : World} {b b₁ : List Pending} (f : Frame)
      (h : Course false { w with machine := w.machine.pushFrame f } b w₁ b₁) :
      Course own w b { w₁ with machine := w₁.machine.popFrame } b₁
  | activated {own : Bool} {w w₁ : World} {b b₁ : List Pending} (a : Activation)
      (h : Course true { w with activations := a :: w.activations } b w₁ b₁) :
      Course own w b { w₁ with activations := w.activations } b₁

namespace World

/-- No step changes the stack. -/
theorem Step.sameStack (h : w.Step b w' b') : w.machine.SameStack w'.machine := by
  cases h with
  | reclaim d rest => exact empty_sameStack { w with dropped := rest } d
  | _ => exact ⟨rfl, rfl, rfl⟩

theorem Step.activations (h : w.Step b w' b') : w'.activations = w.activations := by
  cases h with
  | reclaim d rest => exact (empty_spares { w with dropped := rest } d).activations
  | _ => rfl

/-- What was taken once counts as taken for ever. -/
theorem Step.taken (h : w.Step b w' b') : b ⊆ b' := by
  cases h with
  | takeGraveyard => exact List.subset_append_left _ _
  | _ => exact List.Subset.refl _

namespace Course

theorem frames (h : Course own w b w' b') : w'.machine.frames = w.machine.frames := by
  induction h with
  | refl => rfl
  | step h => exact h.sameStack.frames
  | learned => rfl
  | stack => rfl
  | trans _ _ ih ih' => exact ih'.trans ih
  | arguments => rfl
  | called f _ ih => exact congrArg List.tail ih
  | activated _ _ ih => exact ih

theorem taken (h : Course own w b w' b') : b ⊆ b' := by
  induction h with
  | refl => exact List.Subset.refl _
  | step h => exact h.taken
  | learned => exact List.Subset.refl _
  | stack => exact List.Subset.refl _
  | trans _ _ ih ih' => exact List.Subset.trans ih ih'
  | arguments => exact List.Subset.refl _
  | called _ _ ih => exact ih
  | activated _ _ ih => exact ih

/-- The activations are as before, but for the arguments of the running one if they may change. -/
theorem activations (h : Course own w b w' b') : w'.activations = w.activations ∨
    own = true ∧ ∃ a rest arguments, w.activations = a :: rest ∧
      w'.activations = { a with arguments } :: rest := by
  induction h with
  | refl => exact .inl rfl
  | step h => exact .inl h.activations
  | learned => exact .inl rfl
  | stack => exact .inl rfl
  | trans _ _ ih ih' =>
    rcases ih with he | ⟨hown, a, rest, arguments, ha, he⟩
    · rw [he] at ih'
      exact ih'
    · rcases ih' with he' | ⟨-, a', rest', arguments', ha', he'⟩
      · exact .inr ⟨hown, a, rest, arguments, ha, he'.trans he⟩
      · rw [he] at ha'
        cases ha'
        exact .inr ⟨hown, a, rest, arguments', ha, he'⟩
  | arguments h arguments => exact .inr ⟨rfl, _, _, arguments, h, rfl⟩
  | called _ _ ih =>
    rcases ih with he | ⟨hfalse, -⟩
    · exact .inl he
    · cases hfalse
  | activated => exact .inl rfl

/-- A course that leaves the arguments alone can stand where they may change. -/
theorem mono (h : Course false w b w' b') : Course own w b w' b' := by
  cases own with
  | false => exact h
  | true =>
    generalize hfalse : false = flag at h
    induction h with
    | refl => exact .refl _ _
    | step h => exact .step h
    | learned key found h => exact .learned key found h
    | stack stack => exact .stack stack
    | trans _ _ ih ih' => exact .trans (ih hfalse) (ih' hfalse)
    | arguments => cases hfalse
    | called f h => exact .called f h
    | activated a h => exact .activated a h

end Course

end World

/-! ## Stable properties -/

/-- A property that steps and look-ups keep, and that says nothing of the stack and of which calls
and bodies are under way. -/
structure Stable where
  Holds : World → List Pending → Prop
  step : ∀ {w w' : World} {b b' : List Pending}, Holds w b → w.Step b w' b' → Holds w' b'
  learned : ∀ {w : World} {b : List Pending} (key : String × Binding × String)
    (found : FoundMember), Holds w b →
    (∀ s, w.machine.session = some s → s.members.get? key = none) → Holds (w.learned key found) b
  stack : ∀ {w : World} {b : List Pending} (stack : Array Value), Holds w b →
    Holds { w with machine := { w.machine with stack } } b
  frames : ∀ {w : World} {b : List Pending} (frames : List Frame), Holds w b →
    Holds { w with machine := { w.machine with frames } } b
  activations : ∀ {w : World} {b : List Pending} (activations : List Activation), Holds w b →
    Holds { w with activations } b

namespace Stable

/-- The property that says nothing. -/
def trivial : Stable where
  Holds _ _ := True
  step _ _ := True.intro
  learned _ _ _ _ := True.intro
  stack _ _ := True.intro
  frames _ _ := True.intro
  activations _ _ := True.intro

variable (P : Stable)

/-- A course keeps what its steps keep. -/
theorem course (h : World.Course own w b w' b') (hw : P.Holds w b) : P.Holds w' b' := by
  induction h with
  | refl => exact hw
  | step h => exact P.step hw h
  | learned key found h => exact P.learned key found hw h
  | stack stack => exact P.stack stack hw
  | trans _ _ ih ih' => exact ih' (ih hw)
  | arguments => exact P.activations _ hw
  | called f _ ih => exact P.frames _ (ih (P.frames _ hw))
  | activated a _ ih => exact P.activations _ (ih (P.activations _ hw))

end Stable

end ScriptBridge
