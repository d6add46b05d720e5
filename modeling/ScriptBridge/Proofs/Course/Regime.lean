import ScriptBridge.Proofs.Conversion.Typing
import ScriptBridge.Proofs.Course.Step
import ScriptBridge.Vm.Call

/-!
# Regimes

What all programs of a kind keep is a set of properties of the world, a regime. Small steps keep
each of them, and so does a value that is on the stack for a while. Two programs are alike under a
regime when, from the worlds with any of its properties, they do the same and keep it; a program is
orderly when it is alike to itself.

What the reading of values does can be followed under any regime, since it leaves the objects and
the static cells that there are alone. A regime may allow more: to store values in bags and static
cells, to fill arrays too and to declare classes, to look members up, or to leave values on the
stack. The courses from the worlds with a stable property make a regime.
-/

namespace ScriptBridge

/-- Objects and static cells that are still there hold what they held. -/
structure World.SameContents (w w' : World) : Prop where
  objects : w.objects.SameContents w'.objects
  cells : w.cells.SameContents w'.cells

namespace World.SameContents

variable {w w' w'' : World}

theorem of_same (hobjects : w'.objects = w.objects) (hcells : w'.cells = w.cells) :
    w.SameContents w' :=
  ⟨hobjects ▸ .refl _, hcells ▸ .refl _⟩

theorem refl (w : World) : w.SameContents w := .of_same rfl rfl

theorem trans (h : w.SameContents w') (h' : w'.SameContents w'') : w.SameContents w'' :=
  ⟨h.objects.trans h'.objects, h.cells.trans h'.cells⟩

theorem empty (w : World) (d : Dropped) : w.SameContents (w.empty d).1 := by
  obtain ⟨r, during⟩ := d
  cases r with
  | object o => exact ⟨w.objects.sameContents_erase o.index, .refl _⟩
  | cell c => exact ⟨.refl _, w.cells.sameContents_erase c.index⟩
  | userdata u =>
    unfold World.empty
    dsimp only
    split
    · exact .refl w
    · split
      · unfold modifyMachineOf
        split <;> exact .of_same rfl rfl
      · exact .of_same rfl rfl
  | handle h =>
    unfold World.empty
    dsimp only
    split <;> exact .of_same rfl rfl
  | _ => exact .of_same rfl rfl

theorem reclaimed (w : World) (d : Dropped) (rest : List Dropped) :
    w.SameContents (w.reclaimed d rest) :=
  have h := empty { w with dropped := rest } d
  ⟨h.objects, h.cells⟩

end World.SameContents

/-- Nothing is stored: objects and static cells hold what they held, and only classes of arrays
joined the catalog. -/
structure World.SameStorage (w w' : World) : Prop extends w.SameContents w' where
  catalog : w.catalog.Grows w'.catalog

/-- Values may be stored, but not in arrays: those that are still there are as they were, and only
classes of arrays joined the catalog. -/
structure World.SameArrays (w w' : World) : Prop where
  objects : ∀ {i : Nat} {cell cell' : HostObject} {items : Array HostValue},
    w.objects.get? i = some cell → cell.items? = some items → w'.objects.get? i = some cell' →
      cell' = cell
  catalog : w.catalog.Grows w'.catalog

section

variable {w w' w'' : World}

theorem World.grows_modifySession {f : Session → Session}
    (h : ∀ s, w.machine.session = some s → s.catalog.Grows (f s).catalog) :
    w.catalog.Grows (modifySession f w).2.catalog := by
  have hsession : (modifySession f w).2.machine.session = w.machine.session.map f := rfl
  cases hs : w.machine.session with
  | none =>
    rw [hs] at hsession
    rw [catalog_of_none hs, catalog_of_none hsession]
    exact .refl _
  | some s =>
    rw [hs] at hsession
    rw [catalog_of_some hs, catalog_of_some hsession]
    exact h s hs

namespace World.SameStorage

theorem of_same (hobjects : w'.objects = w.objects) (hcells : w'.cells = w.cells)
    (hcatalog : w'.catalog = w.catalog) : w.SameStorage w' :=
  ⟨.of_same hobjects hcells, hcatalog ▸ .refl _⟩

theorem refl (w : World) : w.SameStorage w := .of_same rfl rfl rfl

theorem trans (h : w.SameStorage w') (h' : w'.SameStorage w'') : w.SameStorage w'' :=
  ⟨h.toSameContents.trans h'.toSameContents, h.catalog.trans h'.catalog⟩

theorem modifySession {f : Session → Session}
    (h : ∀ s, w.machine.session = some s → s.catalog.Grows (f s).catalog) :
    w.SameStorage (ScriptBridge.modifySession f w).2 :=
  ⟨.of_same rfl rfl, grows_modifySession h⟩

theorem reclaimed (w : World) (d : Dropped) (rest : List Dropped) :
    w.SameStorage (w.reclaimed d rest) :=
  ⟨.reclaimed w d rest,
    catalog_grows (empty_emptied { w with dropped := rest } d).session⟩

theorem sameArrays (h : w.SameStorage w') : w.SameArrays w' where
  objects hcell _ hcell' :=
    Option.some.inj ((h.objects.get? _ _ (Store.lt_next _ hcell) hcell').symm.trans hcell)
  catalog := h.catalog

end World.SameStorage

theorem World.SameArrays.of_same (hobjects : w'.objects = w.objects)
    (hcatalog : w'.catalog = w.catalog) : w.SameArrays w' where
  objects hcell _ hcell' := by
    rw [hobjects, hcell] at hcell'
    exact (Option.some.inj hcell').symm
  catalog := hcatalog ▸ .refl _

end

/-- Properties of the world. Each is kept by small steps that store nothing, and by a value that is
pushed and taken off again if what happens between keeps what holds there. -/
structure Regime where
  Has : (World → Prop) → Prop
  step : ∀ {Q : World → Prop} {w w' : World}, Has Q → Q w → (∀ b, w.Step b w' b) →
    w.SameStorage w' → Q w'
  pushed : ∀ {Q : World → Prop} {w : World} (v : Value), Has Q → Q w →
    ∃ Q', Has Q' ∧ Q' { w with machine := w.machine.push v } ∧
      ∀ w', Q' w' → Q { w' with machine := w'.machine.popValue.2 }

section

variable {m : Type → Type} [Monad m] [MonadStateOf World m] [Program m] {α : Type}

/-- From the worlds with a property of the regime two programs do the same, and they keep it. -/
def Alike (R : Regime) (x y : m α) : Prop := ∀ Q, R.Has Q → Agree Q x y

/-- A program keeps each property of the regime. -/
abbrev Orderly (R : Regime) (x : m α) : Prop := Alike R x x

end

variable {R : Regime} {α β ε : Type}

namespace Alike

section

variable {m : Type → Type} [Monad m] [MonadStateOf World m] [Program m]
variable {x y : m α} {f g : α → m β}

protected theorem pure (a : α) : Orderly R (pure a : m α) := fun _ _ => keeps_pure a

protected theorem bind (hx : Alike R x y) (hf : ∀ a, Alike R (f a) (g a)) :
    Alike R (x >>= f) (y >>= g) :=
  fun Q hQ => (hx Q hQ).bind fun a => hf a Q hQ

protected theorem get : Orderly R (get : m World) := fun _ _ => keeps_get

/-- A single step that stores nothing. -/
protected theorem modifyGet {f : World → α × World} (h : ∀ (w : World) b, w.Step b (f w).2 b)
    (hsame : ∀ w : World, w.SameStorage (f w).2) :
    Orderly R (modifyGet f : m α) :=
  fun _ hQ => keeps_modifyGet fun w hw => R.step hQ hw (h w) (hsame w)

protected theorem modify {f : World → World} (h : ∀ (w : World) b, w.Step b (f w) b)
    (hsame : ∀ w : World, w.SameStorage (f w)) :
    Orderly R (modify f : m Unit) :=
  .modifyGet h hsame

/-- A step that only some worlds take. -/
protected theorem guard {c : Prop} [Decidable c] {x x' : m β} {y y' : m α} (hx : Alike R x x')
    (hy : Alike R y y') :
    Alike R (if c then x >>= fun _ => y else y) (if c then x' >>= fun _ => y' else y') := by
  split
  · exact hx.bind fun _ => hy
  · exact hy

end

protected theorem throw (e : ε) : Orderly R (throw e : EStateM ε World α) :=
  fun _ _ => keeps_throw e

protected theorem lift {x y : Action α} (h : Alike R x y) :
    Alike R (liftM x : EStateM ε World α) (liftM y) :=
  fun Q hQ => (h Q hQ).lift

protected theorem attempt {x y : EStateM ε World α} (h : Alike R x y) :
    Alike R (attempt x) (attempt y) :=
  fun Q hQ => (h Q hQ).attempt

/-- A value that is pushed, used on the stack and taken off again. -/
theorem pushed {x : Action α} {f : α → Value → Action β} (v : Value) (hx : Orderly R x)
    (hf : ∀ a v, Orderly R (f a v)) :
    Orderly R (do
      push v
      let a ← x
      f a (← popValue) : Action β) := by
  intro Q hQ
  refine Action.keeps_iff.mpr fun w hw => ?_
  obtain ⟨Q', hQ', hpush, hpop⟩ := R.pushed v hQ hw
  have hused : Q' (x { w with machine := w.machine.push v }).2 := (hx Q' hQ' _ hpush).2
  exact (hf _ _ Q hQ _ (hpop _ hused)).2

/-- An action may be followed from world to world. -/
theorem of_action {x : Action α} (h : ∀ Q w, R.Has Q → Q w → Q (x w).2) : Orderly R x :=
  fun Q hQ => Action.keeps_iff.mpr fun w hw => h Q w hQ hw

end Alike

/-! ## What a regime may allow -/

/-- Bags and static cells may be written to. -/
class Regime.Stores (R : Regime) : Prop where
  store : ∀ {Q : World → Prop} {w w' : World}, R.Has Q → Q w → (∀ b, w.Step b w' b) →
    w.SameArrays w' → Q w'

/-- A single step that may store something, but not in an array. -/
theorem Alike.store [R.Stores] {f : World → World} (h : ∀ (w : World) b, w.Step b (f w) b)
    (hsame : ∀ w : World, w.SameArrays (f w)) : Orderly R (modify f : Action Unit) :=
  fun _ hQ => keeps_modify fun w hw => Regime.Stores.store hQ hw (h w) (hsame w)

/-- Arrays may be written to as well, and classes declared. -/
class Regime.Fills (R : Regime) : Prop where
  fill : ∀ {Q : World → Prop} {w w' : World}, R.Has Q → Q w → (∀ b, w.Step b w' b) → Q w'

instance [R.Fills] : R.Stores where
  store hQ hw h _ := Regime.Fills.fill hQ hw h

/-- A single step of any kind. -/
theorem Alike.fill [R.Fills] {f : World → World} (h : ∀ (w : World) b, w.Step b (f w) b) :
    Orderly R (modify f : Action Unit) :=
  fun _ hQ => keeps_modify fun w hw => Regime.Fills.fill hQ hw (h w)

/-- A session may remember one more member. -/
class Regime.Learns (R : Regime) : Prop where
  learn : ∀ {Q : World → Prop} {w : World} {key : String × Binding × String} (found : FoundMember),
    R.Has Q → Q w → (∀ s, w.machine.session = some s → s.members.get? key = none) →
      Q (w.learned key found)

/-- A value may stay on the stack. -/
class Regime.Pushes (R : Regime) : Prop where
  push : ∀ v : Value, Orderly R (ScriptBridge.push v)

theorem orderly_push [R.Pushes] (v : Value) : Orderly R (push v) := Regime.Pushes.push v

/-- The slots of the stack may change. -/
class Regime.Restacks (R : Regime) : Prop where
  restack : ∀ {Q : World → Prop} {w : World} (stack : Array Value), R.Has Q → Q w →
    Q { w with machine := { w.machine with stack } }

/-- Only the slots of the stack change. -/
theorem orderly_modifyStack [R.Restacks] {m : Type → Type} [Monad m] [MonadStateOf World m]
    [Program m] {f : World → α × World} (g : World → Array Value)
    (h : ∀ w : World, (f w).2 = { w with machine := { w.machine with stack := g w } }) :
    Orderly R (modifyGet f : m α) :=
  fun _ hQ => keeps_modifyGet fun w hw => (h w).symm ▸ Regime.Restacks.restack (g w) hQ hw

instance [R.Restacks] : R.Pushes where
  push v := orderly_modifyStack (fun w => w.machine.stack.push v) fun _ => rfl

/-! ## Courses as a regime -/

theorem Machine.popValue_eq (m : Machine) :
    m.popValue.2 = { m with stack := if m.base < m.stack.size then m.stack.pop else m.stack } := by
  unfold popValue
  split <;> rfl

/-- To follow a course from some world with a stable property. -/
def Stable.regime (P : Stable) (own : Bool) : Regime where
  Has Q := ∃ w b, P.Holds w b ∧ Q = fun w' => ∃ b', World.Course own w b w' b'
  step := by
    rintro _ w w' ⟨w₀, b₀, -, rfl⟩ ⟨b, hw⟩ h -
    exact ⟨b, hw.trans (.step (h b))⟩
  pushed := by
    rintro _ w v ⟨w₀, b₀, hP, rfl⟩ ⟨b, hw⟩
    refine ⟨_, ⟨w₀, b₀, hP, rfl⟩, ⟨b, hw.trans (.stack _)⟩, ?_⟩
    rintro w' ⟨b', hw'⟩
    rw [Machine.popValue_eq]
    exact ⟨b', hw'.trans (.stack _)⟩

instance (P : Stable) (own : Bool) : (P.regime own).Fills where
  fill := by
    rintro _ w w' ⟨w₀, b₀, -, rfl⟩ ⟨b, hw⟩ h
    exact ⟨b, hw.trans (.step (h b))⟩

instance (P : Stable) (own : Bool) : (P.regime own).Restacks where
  restack := by
    rintro _ w stack ⟨w₀, b₀, -, rfl⟩ ⟨b, hw⟩
    exact ⟨b, hw.trans (.stack stack)⟩

instance (P : Stable) (own : Bool) : (P.regime own).Learns where
  learn := by
    rintro _ w key found ⟨w₀, b₀, -, rfl⟩ ⟨b, hw⟩ h
    exact ⟨b, hw.trans (.learned key found h)⟩

/-- What it means for actions. -/
theorem alike_action_iff {P : Stable} {own : Bool} {x y : Action α} :
    Alike (P.regime own) x y ↔
      ∀ w b, P.Holds w b → x w = y w ∧ ∃ b', World.Course own w b (x w).2 b' := by
  constructor
  · intro h w b hw
    exact h _ ⟨w, b, hw, rfl⟩ w ⟨b, .refl w b⟩
  · rintro h _ ⟨w, b, hw, rfl⟩ w' ⟨b', hw'⟩
    obtain ⟨he, b'', h'⟩ := h w' b' (P.course hw' hw)
    exact ⟨he, b'', hw'.trans h'⟩

/-- What it means for programs that can fail. -/
theorem alike_iff {P : Stable} {own : Bool} {x y : EStateM ε World α} :
    Alike (P.regime own) x y ↔
      ∀ w b, P.Holds w b → x w = y w ∧ ∃ b', World.Course own w b (worldAfter (x w)) b' := by
  constructor
  · intro h w b hw
    exact h _ ⟨w, b, hw, rfl⟩ w ⟨b, .refl w b⟩
  · rintro h _ ⟨w, b, hw, rfl⟩ w' ⟨b', hw'⟩
    obtain ⟨he, b'', h'⟩ := h w' b' (P.course hw' hw)
    exact ⟨he, b'', hw'.trans h'⟩

end ScriptBridge
