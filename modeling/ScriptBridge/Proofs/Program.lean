import ScriptBridge.Memory.Reclaim

/-!
# Programs that agree, and what they keep

Two programs agree from the worlds with a property when they do the same from each of them and end
in a world with that property again. A program that agrees with itself keeps the property. The
rules follow the shape of a program: `pure`, `bind`, the operations on the state, and the passage
between actions and programs that can fail.

Two different programs are compared because most functions take an engine: they agree under two
engines as soon as the engines agree, whatever the engines do from other worlds.
-/

namespace ScriptBridge

/-- The world after a program, whether it failed or not. -/
def worldAfter {ε α : Type} : EStateM.Result ε World α → World
  | .ok _ w | .error _ w => w

/-- A monad whose programs pass the world along. -/
class Program (m : Type → Type) [Monad m] [MonadStateOf World m] where
  /-- From the worlds with a property both programs do the same, and the world after has the
  property too. -/
  Agree : {α : Type} → (World → Prop) → m α → m α → Prop
  agree_pure : ∀ {α : Type} {P : World → Prop} (a : α), Agree P (pure a) (pure a)
  agree_bind : ∀ {α β : Type} {P : World → Prop} {x y : m α} {f g : α → m β},
    Agree P x y → (∀ a, Agree P (f a) (g a)) → Agree P (x >>= f) (y >>= g)
  agree_get : ∀ {P : World → Prop}, Agree P (get : m World) get
  agree_modifyGet : ∀ {α : Type} {P : World → Prop} {f : World → α × World},
    (∀ w, P w → P (f w).2) → Agree P (modifyGet f : m α) (modifyGet f)
  agree_local : ∀ {α : Type} {P : World → Prop} {x y : m α},
    (∀ w, P w → ∃ Q : World → Prop, Q w ∧ (∀ w', Q w' → P w') ∧ Agree Q x y) → Agree P x y

export Program (Agree)

/-- A program keeps a property of the world. -/
abbrev Keeps {m : Type → Type} [Monad m] [MonadStateOf World m] [Program m] {α : Type}
    (P : World → Prop) (x : m α) : Prop :=
  Agree P x x

/-! ## Actions and programs that can fail -/

instance : Program Action where
  Agree P x y := ∀ w, P w → x w = y w ∧ P (x w).2
  agree_pure _ _ h := ⟨rfl, h⟩
  agree_bind {α β P x y f g} hx hf w h := by
    obtain ⟨he, hp⟩ := hx w h
    obtain ⟨he', hp'⟩ := hf (x w).1 (x w).2 hp
    refine ⟨?_, hp'⟩
    show f (x w).1 (x w).2 = g (y w).1 (y w).2
    rw [← he]
    exact he'
  agree_get _ h := ⟨rfl, h⟩
  agree_modifyGet hf w h := ⟨rfl, hf w h⟩
  agree_local h w hw := by
    obtain ⟨Q, hq, hqp, hxy⟩ := h w hw
    exact ⟨(hxy w hq).1, hqp _ (hxy w hq).2⟩

instance {ε : Type} : Program (EStateM ε World) where
  Agree P x y := ∀ w, P w → x w = y w ∧ P (worldAfter (x w))
  agree_pure _ _ h := ⟨rfl, h⟩
  agree_bind {α β P x y f g} hx hf w h := by
    obtain ⟨he, hp⟩ := hx w h
    show EStateM.bind x f w = EStateM.bind y g w ∧ P (worldAfter (EStateM.bind x f w))
    unfold EStateM.bind
    rw [← he]
    cases hr : x w with
    | ok a w₁ =>
      rw [hr] at hp
      exact hf a w₁ hp
    | error e w₁ =>
      rw [hr] at hp
      exact ⟨rfl, hp⟩
  agree_get _ h := ⟨rfl, h⟩
  agree_modifyGet hf w h := ⟨rfl, hf w h⟩
  agree_local h w hw := by
    obtain ⟨Q, hq, hqp, hxy⟩ := h w hw
    exact ⟨(hxy w hq).1, hqp _ (hxy w hq).2⟩

/-! ## Rules for both -/

section

variable {m : Type → Type} [Monad m] [MonadStateOf World m] [Program m]
variable {α β : Type} {P : World → Prop} {x y : m α} {f g : α → m β}

theorem Program.Agree.bind (hx : Agree P x y) (hf : ∀ a, Agree P (f a) (g a)) :
    Agree P (x >>= f) (y >>= g) :=
  Program.agree_bind hx hf

/-- A property may be sharpened to one that depends on the world before. -/
theorem Program.Agree.of_local
    (h : ∀ w, P w → ∃ Q : World → Prop, Q w ∧ (∀ w', Q w' → P w') ∧ Agree Q x y) : Agree P x y :=
  Program.agree_local h

theorem keeps_pure (a : α) : Keeps P (pure a : m α) := Program.agree_pure a

theorem keeps_get : Keeps P (get : m World) := Program.agree_get

theorem keeps_modifyGet {f : World → α × World} (h : ∀ w, P w → P (f w).2) :
    Keeps P (modifyGet f : m α) :=
  Program.agree_modifyGet h

theorem keeps_modify {f : World → World} (h : ∀ w, P w → P (f w)) : Keeps P (modify f : m Unit) :=
  Program.agree_modifyGet h

theorem agree_forM {f g : α → m Unit} (h : ∀ a, Agree P (f a) (g a)) (l : List α) :
    Agree P (l.forM f) (l.forM g) := by
  induction l with
  | nil => exact keeps_pure ()
  | cons a rest ih => exact (h a).bind fun _ => ih

theorem agree_mapM [LawfulMonad m] (h : ∀ a, Agree P (f a) (g a)) (l : List α) :
    Agree P (l.mapM f) (l.mapM g) := by
  induction l with
  | nil =>
    rw [List.mapM_nil, List.mapM_nil]
    exact keeps_pure _
  | cons a rest ih =>
    rw [List.mapM_cons, List.mapM_cons]
    exact (h a).bind fun _ => ih.bind fun _ => keeps_pure _

end

/-! ## One step at a time -/

section

variable {α β ε : Type} {x : EStateM ε World α} {f : α → EStateM ε World β} {w w' : World}

theorem bind_of_ok {a : α} (h : x w = .ok a w') : (x >>= f) w = f a w' := by
  show EStateM.bind x f w = f a w'
  unfold EStateM.bind
  rw [h]

theorem bind_of_error {e : ε} (h : x w = .error e w') : (x >>= f) w = .error e w' := by
  show EStateM.bind x f w = .error e w'
  unfold EStateM.bind
  rw [h]

theorem bind_of_eq {y : Action α} {g : α → Action β} {a : α} (h : y w = (a, w')) :
    (y >>= g) w = g a w' := by
  show g (y w).1 (y w).2 = g a w'
  rw [h]

theorem lift_of_eq {y : Action α} {a : α} (h : y w = (a, w')) :
    (liftM y : EStateM ε World α) w = .ok a w' := by
  show EStateM.Result.ok (y w).1 (y w).2 = .ok a w'
  rw [h]

/-- Reading the world, and what comes after it. -/
theorem get_bind (f : World → EStateM ε World β) (w : World) :
    ((get : EStateM ε World World) >>= f) w = f w w := rfl

theorem get_eq (w : World) : (get : Action World) w = (w, w) := rfl

/-- An action where failing is possible, and what comes after it. -/
theorem lift_bind (y : Action α) (f : α → EStateM ε World β) (w : World) :
    (liftM y >>= f : EStateM ε World β) w = f (y w).1 (y w).2 :=
  bind_of_ok (lift_of_eq rfl)

/-- A sequence that succeeds does so in both of its parts. -/
theorem exists_of_bind_ok {b : β} (h : (x >>= f) w = .ok b w') :
    ∃ a w₁, x w = .ok a w₁ ∧ f a w₁ = .ok b w' := by
  cases hx : x w with
  | ok a w₁ => exact ⟨a, w₁, rfl, (bind_of_ok hx).symm.trans h⟩
  | error e w₁ =>
    rw [bind_of_error hx] at h
    cases h

theorem attempt_of_ok {a : α} (h : x w = .ok a w') : attempt x w = (.ok a, w') := by
  unfold attempt
  rw [h]

theorem attempt_of_error {e : ε} (h : x w = .error e w') : attempt x w = (.error e, w') := by
  unfold attempt
  rw [h]

end

/-! ## Passing between the two -/

section

variable {α ε : Type} {P : World → Prop}

theorem Action.keeps_iff {x : Action α} : Keeps P x ↔ ∀ w, P w → P (x w).2 :=
  ⟨fun h w hw => (h w hw).2, fun h w hw => ⟨rfl, h w hw⟩⟩

theorem keeps_throw (e : ε) : Keeps P (throw e : EStateM ε World α) := fun _ h => ⟨rfl, h⟩

/-- An action where failing is possible. -/
theorem Program.Agree.lift {x y : Action α} (h : Agree P x y) :
    Agree P (liftM x : EStateM ε World α) (liftM y) := by
  intro w hw
  obtain ⟨he, hp⟩ := h w hw
  have hlift (z : Action α) : (liftM z : EStateM ε World α) w = .ok (z w).1 (z w).2 := rfl
  rw [hlift, hlift, ← he]
  exact ⟨rfl, hp⟩

/-- The outcome of a program that may fail. -/
theorem Program.Agree.attempt {x y : EStateM ε World α} (h : Agree P x y) :
    Agree P (attempt x) (attempt y) := by
  intro w hw
  obtain ⟨he, hp⟩ := h w hw
  unfold ScriptBridge.attempt
  rw [← he]
  cases hr : x w with
  | ok a w₁ =>
    rw [hr] at hp
    exact ⟨rfl, hp⟩
  | error e w₁ =>
    rw [hr] at hp
    exact ⟨rfl, hp⟩

end

end ScriptBridge
