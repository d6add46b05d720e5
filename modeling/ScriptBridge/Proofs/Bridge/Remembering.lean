import ScriptBridge.Proofs.Course.Proxy

/-!
# What the session remembers of members

The handlers of proxies look members up, and then run on to convert values, read and write storage
and throw exceptions. `MembersFree` says of a program that it leaves alone what the session
remembers of members, and the dispatchers and functions behind it: at most they go with the memory.
Every small step does so, so it is a regime, and everything a handler runs after a look-up is an
instance.
-/

namespace ScriptBridge

/-! ## Worlds with the same memory of members -/

/-- What a session finds members by. -/
def Session.memory (s : Session) :
    Options × Dictionary (String × Binding × String) FoundMember :=
  (s.options, s.members)

/-- The session remembers the same members. Their functions and dispatchers are as before as far as
they are still there; others may join. -/
structure World.Remembers (w w' : World) : Prop where
  session : ∀ s', w'.machine.session = some s' →
    ∃ s, w.machine.session = some s ∧ s'.memory = s.memory
  functionsNext : w.functions.next ≤ w'.functions.next
  functions : ∀ i < w.functions.next, ∀ f, w'.functions.get? i = some f →
    w.functions.get? i = some f
  dispatchersNext : w.dispatchers.next ≤ w'.dispatchers.next
  dispatchers : ∀ i < w.dispatchers.next, ∀ d', w'.dispatchers.get? i = some d' →
    ∃ d, w.dispatchers.get? i = some d ∧ d'.candidates = d.candidates

namespace World.Remembers

variable {w w' w'' : World}

theorem refl (w : World) : w.Remembers w where
  session s hs := ⟨s, hs, rfl⟩
  functionsNext := Nat.le_refl _
  functions _ _ _ h := h
  dispatchersNext := Nat.le_refl _
  dispatchers _ _ d h := ⟨d, h, rfl⟩

theorem trans (h : w.Remembers w') (h' : w'.Remembers w'') : w.Remembers w'' where
  session s'' hs'' := by
    obtain ⟨s', hs', he'⟩ := h'.session s'' hs''
    obtain ⟨s, hs, he⟩ := h.session s' hs'
    exact ⟨s, hs, he'.trans he⟩
  functionsNext := Nat.le_trans h.functionsNext h'.functionsNext
  functions i hi f hf :=
    h.functions i hi f (h'.functions i (Nat.lt_of_lt_of_le hi h.functionsNext) f hf)
  dispatchersNext := Nat.le_trans h.dispatchersNext h'.dispatchersNext
  dispatchers i hi d'' hd'' := by
    obtain ⟨d', hd', he'⟩ :=
      h'.dispatchers i (Nat.lt_of_lt_of_le hi h.dispatchersNext) d'' hd''
    obtain ⟨d, hd, he⟩ := h.dispatchers i hi d' hd'
    exact ⟨d, hd, he'.trans he⟩

/-- A change of other parts of the world. -/
theorem of_same (hfunctions : w'.functions = w.functions)
    (hdispatchers : w'.dispatchers = w.dispatchers)
    (hsession : w'.machine.session.map Session.memory = w.machine.session.map Session.memory) :
    w.Remembers w' where
  session s' hs' := by
    rw [hs', Option.map_some] at hsession
    obtain ⟨s, hs, he⟩ := Option.map_eq_some_iff.mp hsession.symm
    exact ⟨s, hs, he.symm⟩
  functionsNext := Nat.le_of_eq (congrArg Store.next hfunctions.symm)
  functions _ _ _ h := hfunctions ▸ h
  dispatchersNext := Nat.le_of_eq (congrArg Store.next hdispatchers.symm)
  dispatchers _ _ d h := ⟨d, hdispatchers ▸ h, rfl⟩

end World.Remembers

/-- Reclaiming memory takes functions and dispatchers at most. -/
theorem World.empty_remembers (w : World) (d : Dropped) : w.Remembers (w.empty d).1 := by
  obtain ⟨r, during⟩ := d
  cases r with
  | function f =>
    refine ⟨fun s hs => ⟨s, hs, rfl⟩, Nat.le_of_eq (Store.next_erase _ _).symm,
      fun i _ f' h => ?_, Nat.le_refl _, fun _ _ d h => ⟨d, h, rfl⟩⟩
    exact Store.get?_of_erase _ h
  | dispatcher d =>
    refine ⟨fun s hs => ⟨s, hs, rfl⟩, Nat.le_refl _, fun _ _ _ h => h,
      Nat.le_of_eq (Store.next_erase _ _).symm, fun i _ d' h => ⟨d', ?_, rfl⟩⟩
    exact Store.get?_of_erase _ h
  | handle h =>
    cases hcell : w.handles.get? h.index with
    | none =>
      rw [empty_handle_none during hcell]
      exact .refl w
    | some cell =>
      rw [empty_handle_some during hcell]
      refine .of_same rfl rfl ?_
      show (w.machine.session.map fun s => if s.id == cell.session then
        { s with releases := s.releases ++ [cell.reference] } else s).map Session.memory = _
      rw [Option.map_map]
      congr 1
      funext s
      dsimp only [Function.comp_apply]
      split <;> rfl
  | userdata u =>
    unfold World.empty
    dsimp only
    cases w.userdata.get? u.index with
    | none => exact .refl w
    | some cell =>
      dsimp only
      split
      · have h := modifyMachineOf_outside { w with userdata := w.userdata.erase u.index } cell.home
        unfold modifyMachineOf at h ⊢
        split <;> exact .of_same rfl rfl rfl
      · exact .of_same rfl rfl rfl
  | table t => exact .of_same rfl rfl rfl
  | object o => exact .of_same rfl rfl rfl
  | cell c => exact .of_same rfl rfl rfl

/-- No small step changes what the session remembers of members. -/
theorem World.Step.remembers {w w' : World} {b b' : List Pending} (h : w.Step b w' b') :
    w.Remembers w' := by
  cases h with
  | session f hf =>
    refine .of_same rfl rfl ?_
    show (w.machine.session.map f).map Session.memory = _
    cases hs : w.machine.session with
    | none => rfl
    | some s => exact congrArg some (Prod.ext (hf s hs).options (hf s hs).members)
  | registry r hr =>
    refine .of_same rfl rfl ?_
    show (w.machine.session.map fun s => { s with registry := r }).map Session.memory = _
    rw [Option.map_map]
    rfl
  | newFunction f =>
    refine ⟨fun s hs => ⟨s, hs, rfl⟩, ?_, fun i hi f' hf' => ?_, Nat.le_refl _,
      fun _ _ d hd => ⟨d, hd, rfl⟩⟩
    · exact Nat.le_trans (Nat.le_succ _) (Nat.le_of_eq (Store.next_add _ _).symm)
    · rw [← Store.get?_add_of_lt _ _ hi]
      exact hf'
  | newDispatcher d =>
    refine ⟨fun s hs => ⟨s, hs, rfl⟩, Nat.le_refl _, fun _ _ _ hf => hf, ?_,
      fun i hi d' hd' => ⟨d', ?_, rfl⟩⟩
    · exact Nat.le_trans (Nat.le_succ _) (Nat.le_of_eq (Store.next_add _ _).symm)
    · rw [← Store.get?_add_of_lt _ _ hi]
      exact hd'
  | setPlan d plan =>
    refine ⟨fun s hs => ⟨s, hs, rfl⟩, Nat.le_refl _, fun _ _ _ hf => hf,
      Nat.le_of_eq (Store.next_modify _ _ _).symm, fun i _ d' hd' => ?_⟩
    replace hd' : (w.dispatchers.modify d.index ({ · with plan })).get? i = some d' := hd'
    rw [Store.get?_modify] at hd'
    split at hd'
    · obtain ⟨d₀, hd₀, rfl⟩ := Option.map_eq_some_iff.mp hd'
      exact ⟨d₀, hd₀, rfl⟩
    · exact ⟨d', hd', rfl⟩
  | reclaim d rest =>
    have hrest : w.Remembers { w with dropped := rest } := .of_same rfl rfl rfl
    exact hrest.trans ((World.empty_remembers _ d).trans (.of_same rfl rfl rfl))
  | _ => exact .of_same rfl rfl rfl

/-! ## Programs -/

/-- A program leaves the memory of members alone. -/
def MembersFree {m : Type → Type} [Monad m] [MonadStateOf World m] [Program m] {α : Type}
    (x : m α) : Prop :=
  ∀ w : World, Keeps w.Remembers x

/-- To leave the memory of members alone. -/
def Regime.membersFree : Regime where
  Has Q := ∃ w : World, Q = w.Remembers
  step := by
    rintro _ w w' ⟨w₀, rfl⟩ hw h -
    exact hw.trans (h []).remembers
  pushed := by
    rintro _ w v ⟨w₀, rfl⟩ hw
    refine ⟨_, ⟨w₀, rfl⟩, hw.trans (.of_same rfl rfl rfl), fun w' hw' => ?_⟩
    rw [Machine.popValue_eq]
    exact hw'.trans (.of_same rfl rfl rfl)

instance : Regime.membersFree.Fills where
  fill := by
    rintro _ w w' ⟨w₀, rfl⟩ hw h
    exact hw.trans (h []).remembers

instance : Regime.membersFree.Pushes where
  push v := by
    rintro _ ⟨w₀, rfl⟩
    exact keeps_modify fun w hw => hw.trans (.of_same rfl rfl rfl)

/-- What is orderly under every regime that lets values stay on the stack leaves the memory of
members alone. -/
theorem Alike.membersFree {m : Type → Type} [Monad m] [MonadStateOf World m] [Program m]
    {α : Type} {x : m α} (h : Orderly .membersFree x) : MembersFree x :=
  fun w => h _ ⟨w, rfl⟩

end ScriptBridge
