import ScriptBridge.Proofs.Course.Run

/-!
# Programs stay inside their frame

No small step changes the stack, so to leave the stack alone is a regime: conversions, matching and
all else that is orderly under every regime read the stack of the running frame, but never write to
it.

To stay inside the running frame is a conduct. The operations on the stack keep the footing of the
frame, and a call keeps it if the body that it runs keeps its own. So whatever an engine runs inside
a frame keeps every slot below the frame and the calls under way.
-/

namespace ScriptBridge

/-! ## Leaving the stack alone -/

/-- To leave the stack alone. -/
def Regime.stackFree : Regime where
  Has Q := ∃ m : Machine, m.HasFrame ∧ Q = fun w => m.SameStack w.machine
  step := by
    rintro _ w w' ⟨m, -, rfl⟩ hw h -
    exact hw.trans (h []).sameStack
  pushed := by
    rintro _ w v ⟨m, hm, rfl⟩ hw
    have hframe : w.machine.HasFrame := hw.hasFrame hm
    refine ⟨_, ⟨w.machine.push v, hframe.push v, rfl⟩, .refl _, fun w' hw' => ?_⟩
    obtain ⟨-, hpop⟩ := hw'.popValue
    rw [Machine.popValue_push hframe] at hpop
    exact hw.trans hpop

instance : Regime.stackFree.Fills where
  fill := by
    rintro _ w w' ⟨m, -, rfl⟩ hw h
    exact hw.trans (h []).sameStack

section

variable {m : Type → Type} [Monad m] [MonadStateOf World m] [Program m] {α : Type} {x y : m α}

/-- A program that is orderly under every regime leaves the stack alone. -/
theorem Alike.stackFree (h : Orderly .stackFree x) : StackFree x := fun m hm => h _ ⟨m, hm, rfl⟩

theorem StackFree.orderly (h : StackFree x) : Orderly .stackFree x := by
  rintro _ ⟨m, hm, rfl⟩
  exact h m hm

/-! ## Staying inside the frame -/

/-- To keep the footing of the running frame. -/
def Regime.framed : Regime where
  Has Q := ∃ F : Footing, F.IsFrame ∧ F.IsShallow ∧ Q = F.At
  step := by
    rintro _ w w' ⟨F, -, -, rfl⟩ hw h -
    exact hw.of_sameStack (h []).sameStack
  pushed := by
    rintro _ w v ⟨F, hF, hs, rfl⟩ hw
    exact ⟨F.At, ⟨F, hF, hs, rfl⟩, hw.push v, fun w' hw' => hw'.popValue hF⟩

theorem Alike.framed (h : Alike .framed x y) : Framed x y :=
  fun F hF hs => h _ ⟨F, hF, hs, rfl⟩

theorem Framed.alike (h : Framed x y) : Alike .framed x y := by
  rintro _ ⟨F, hF, hs, rfl⟩
  exact h F hF hs

instance : Regime.framed.Fills where
  fill := by
    rintro _ w w' ⟨F, -, -, rfl⟩ hw h
    exact hw.of_sameStack (h []).sameStack

instance : Regime.framed.Learns where
  learn := by
    rintro _ w key found ⟨F, -, -, rfl⟩ hw -
    exact hw.of_sameStack ⟨rfl, rfl, rfl⟩

/-- A change that keeps the footing. -/
theorem framed_modifyGet {f : World → α × World}
    (h : ∀ (F : Footing) (w : World), F.IsFrame → F.At w → F.At (f w).2) :
    Orderly .framed (modifyGet f : m α) := by
  rintro _ ⟨F, hF, -, rfl⟩
  exact keeps_modifyGet fun w hw => h F w hF hw

end

theorem framed_onStack {f : Machine → Machine × List Value}
    (h : ∀ (F : Footing) (m : Machine), F.IsFrame → F.Holds m → F.Holds (f m).1) :
    Orderly .framed (onStack f) :=
  .bind (framed_modifyGet fun F w hF hw => h F w.machine hF hw) fun _ => orderly_release _

/-- A cut at a slot of the frame. -/
theorem framed_cutFrame (pos : Nat) {f g : Unit → Script Status} (h : Alike .framed (f ()) (g ())) :
    Alike .framed (liftM readMachine >>= fun m => liftM (cut (max pos m.base)) >>= f)
      (liftM readMachine >>= fun m => liftM (cut (max pos m.base)) >>= g) := by
  rintro _ ⟨F, hF, hs, rfl⟩ w hw
  have hcut : F.At (cut (max pos w.machine.base) [] w).2 :=
    (hw.truncate (by have := hw.base_eq hF; omega)).of_sameStack (cut_sameStack w _ [])
  exact h _ ⟨F, hF, hs, rfl⟩ _ hcut

/-- Host bodies run in the frame that enters them. -/
theorem framed_activate {α : Type} (a : Activation) {x y : Host α} (h : Alike .framed x y) :
    Alike .framed (activate a x) (activate a y) :=
  .bind .get fun _ => .bind (framed_modifyGet fun _ _ _ h => h) fun _ => .bind h.attempt fun _ =>
    .bind orderly_activation fun _ => .bind (framed_modifyGet fun _ _ _ h => h) fun _ => .pure _

/-- To stay inside the frame is a conduct, in host bodies and outside. -/
def Conduct.framed : Conduct where
  regime _ := .framed
  stores _ := inferInstance
  learns _ := inferInstance
  objectAssign := orderly_objectAssign
  push v := framed_modifyGet fun _ _ _ h => h.push v
  popValue := framed_modifyGet fun _ _ hF h => h.popValue hF
  setTop n := framed_onStack fun _ _ hF h => h.setTop hF n
  remove i := framed_onStack fun _ _ hF h => h.remove hF i
  replace i := framed_onStack fun _ _ hF h => h.replace hF i
  insert i := framed_modifyGet fun _ _ hF h => h.insert hF i
  cutFrame pos _ _ h := framed_cutFrame pos h
  call hE nargs wanted := (framed_call fun f => (hE f).framed).alike
  batch {_ Q w} hQ hw := by
    obtain ⟨F, hF, hs, rfl⟩ := hQ
    have htaken : F.At (takeGraveyard w).2 := hw.of_sameStack ⟨rfl, rfl, rfl⟩
    exact ⟨F.At, ⟨F, hF, hs, rfl⟩, htaken, fun _ h => h, fun p _ => keeps_modifyGet fun _ h => h⟩
  setArguments arguments := framed_modifyGet fun F w _ h => by
    dsimp only
    split
    · exact h
    · exact h
  activate a _ _ h := framed_activate a h

instance : Conduct.framed.Fills where
  fills _ := inferInstanceAs Regime.framed.Fills

/-! ## Engines -/

namespace Engine

theorem Alike.framed {E E' : Engine} (h : E.Alike .framed E') : E.Framed E' where
  run f := (@Alike.run _ _ _ h false f).framed
  block ops := (@Alike.block _ _ _ h false ops).framed
  invoke m cls target arguments := (@Alike.invoke _ _ _ h false m cls target arguments).framed
  statements body := (h.statements body).framed
  eval e := (@Alike.eval _ _ _ h false e).framed

/-- Whatever an engine runs inside a frame stays there. -/
theorem ofDepth_framed (d : Nat) : (ofDepth d).Framed (ofDepth d) :=
  (ofDepth_alike .framed d).framed

end Engine

end ScriptBridge
