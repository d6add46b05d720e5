import ScriptBridge.Proofs.Course.Proxy
import ScriptBridge.Proofs.Stack.Call
import ScriptBridge.Script.Body

/-!
# Conducts

A conduct is a regime for everything that runs: one for what runs outside host bodies, and one for
what runs inside, where the arguments of the running activation may change. It says what the stack,
calls, finalizers and activations do; all other programs are followed from there.

The courses from the worlds with a stable property make a conduct, and so does a regime that speaks
of nothing but what is stored.
-/

namespace ScriptBridge

/-- Regimes under which the stack is used, functions are called, finalizers are run and host bodies
are entered. Inside a host body the regime is that of its `own` activation. -/
structure Conduct where
  regime : Bool → Regime
  stores : ∀ own, (regime own).Stores
  learns : ∀ own, (regime own).Learns
  /-- Scripts may fill arrays. -/
  objectAssign : ∀ {own : Bool}, Orderly (regime own) ScriptBridge.objectAssign
  push : ∀ {own : Bool} (v : Value), Orderly (regime own) (ScriptBridge.push v)
  popValue : ∀ {own : Bool}, Orderly (regime own) ScriptBridge.popValue
  setTop : ∀ {own : Bool} (n : Int), Orderly (regime own) (ScriptBridge.setTop n)
  remove : ∀ {own : Bool} (i : Int), Orderly (regime own) (onStack (·.remove i))
  replace : ∀ {own : Bool} (i : Int), Orderly (regime own) (onStack (·.replace i))
  insert : ∀ {own : Bool} (i : Int), Orderly (regime own) (modifyMachine (·.insert i))
  /-- A cut at a slot of the frame. -/
  cutFrame : ∀ {own : Bool} (pos : Nat) {f g : Unit → Script Status},
    Alike (regime own) (f ()) (g ()) →
      Alike (regime own) (liftM readMachine >>= fun m => liftM (cut (max pos m.base)) >>= f)
        (liftM readMachine >>= fun m => liftM (cut (max pos m.base)) >>= g)
  call : ∀ {own : Bool} {E E' : Engine}, (∀ f, Alike (regime false) (E.run f) (E'.run f)) →
    ∀ nargs wanted, Alike (regime own) (ScriptBridge.call E nargs wanted)
      (ScriptBridge.call E' nargs wanted)
  /-- From the world whose graveyard was taken, the userdata in it may come back. -/
  batch : ∀ {own : Bool} {Q : World → Prop} {w : World}, (regime own).Has Q → Q w →
    ∃ Q', (regime own).Has Q' ∧ Q' (takeGraveyard w).2 ∧ (∀ w', Q' w' → Q w') ∧
      ∀ p ∈ w.machine.graveyard, Keeps Q' (resurrect p)
  setArguments : ∀ arguments, Orderly (regime true) (ScriptBridge.setArguments arguments)
  activate : ∀ {own : Bool} {α : Type} (a : Activation) {x y : Host α},
    Alike (regime true) x y →
      Alike (regime own) (ScriptBridge.activate a x) (ScriptBridge.activate a y)

instance (C : Conduct) (own : Bool) : (C.regime own).Stores := C.stores own

instance (C : Conduct) (own : Bool) : (C.regime own).Learns := C.learns own

/-- Host bodies may fill arrays too, and classes may be declared. -/
class Conduct.Fills (C : Conduct) : Prop where
  fills : ∀ own, (C.regime own).Fills

instance (C : Conduct) [h : C.Fills] (own : Bool) : (C.regime own).Fills := h.fills own

instance (C : Conduct) (own : Bool) : (C.regime own).Pushes := ⟨C.push⟩

/-- Whatever one engine runs the other runs alike. -/
structure Engine.Alike (C : Conduct) (E E' : Engine) : Prop where
  run : ∀ {own : Bool} (f : FunctionRef), ScriptBridge.Alike (C.regime own) (E.run f) (E'.run f)
  block : ∀ {own : Bool} (ops : List Op),
    ScriptBridge.Alike (C.regime own) (E.block ops) (E'.block ops)
  invoke : ∀ {own : Bool} (m : Method) (cls : Class) (target : Option ObjectRef)
    (arguments : List HostValue), ScriptBridge.Alike (C.regime own)
      (E.invoke m cls target arguments) (E'.invoke m cls target arguments)
  statements : ∀ body, ScriptBridge.Alike (C.regime true) (E.statements body) (E'.statements body)
  eval : ∀ {own : Bool} (e : Expr), ScriptBridge.Alike (C.regime own) (E.eval e) (E'.eval e)

/-! ## The stack -/

section

variable {R : Regime} [R.Restacks]

theorem orderly_onStack {f : Machine → Machine × List Value} (g : Machine → Array Value)
    (h : ∀ m : Machine, (f m).1 = { m with stack := g m }) : Orderly R (onStack f) := by
  refine .bind (orderly_modifyStack (fun w => g w.machine) fun w => ?_) fun _ =>
    orderly_release _
  show ({ w with machine := (f w.machine).1 } : World) = _
  rw [h]

theorem orderly_popValue : Orderly R popValue :=
  orderly_modifyStack _ fun w => congrArg (fun m => { w with machine := m }) w.machine.popValue_eq

theorem orderly_insert (i : Int) : Orderly R (modifyMachine (·.insert i)) :=
  orderly_modifyStack (fun w => (w.machine.insert i).stack) fun w =>
    congrArg (fun m => { w with machine := m }) (w.machine.insert_eq i)

theorem orderly_cut (pos : Nat) (outliving : List Ref := []) : Orderly R (cut pos outliving) :=
  .bind (orderly_modifyStack (fun w => w.machine.stack.take pos) fun _ => rfl) fun _ =>
    orderly_discard _

theorem alike_cutFrame (pos : Nat) {f g : Unit → Script Status} (h : Alike R (f ()) (g ())) :
    Alike R (liftM readMachine >>= fun m => liftM (cut (max pos m.base)) >>= f)
      (liftM readMachine >>= fun m => liftM (cut (max pos m.base)) >>= g) :=
  .bind (.lift orderly_readMachine) fun _ => .bind (.lift (orderly_cut _)) fun _ => h

theorem orderly_calleeAt (pos : Nat) : Orderly R (calleeAt pos) := by
  refine .bind .get fun w => ?_
  split
  · exact .pure _
  · split
    · rename_i f _
      exact .bind (.lift (orderly_modifyStack
        (fun w => w.machine.stack.insertIdxIfInBounds pos (.function f)) fun _ => rfl)) fun _ =>
          .pure f
    · exact .bind (.lift (orderly_cut _ _)) fun _ => .bind (.lift orderly_settle) fun _ =>
        orderly_raiseAt _ _

theorem orderly_overflow (pos : Nat) (f : FunctionRef) : Orderly R (overflow pos f) :=
  .bind (.lift (orderly_cut _ _)) fun _ => .bind (.lift orderly_settle) fun _ => .throw _

/-- What leaving a call does once its frame is gone. -/
theorem Regime.leaveCall {Q : World → Prop} (hQ : R.Has Q) {w : World}
    (hw : Q { w with machine := w.machine.popFrame }) (pos : Nat) (f : FunctionRef) (wanted : Int)
    (outcome : Except Raise Nat) :
    Q (worldAfter (ScriptBridge.leaveCall pos f wanted outcome w)) := by
  unfold ScriptBridge.leaveCall
  rw [lift_bind]
  cases outcome with
  | ok n =>
    let results (w : World) := w.machine.returnResults pos n wanted
    have hresults : Orderly R (do
        let dropped ← modifyGet fun w => ((results w).2, { w with machine := (results w).1 })
        release (dropped.flatMap Value.refs ++ [.function f]) : Script Unit) := by
      refine .bind (orderly_modifyStack (fun w => (results w).1.stack) fun w => ?_) fun _ =>
        .lift (orderly_release _)
      dsimp only [results]
      rw [← Machine.returnResults_eq]
    exact (hresults Q hQ _ hw).2
  | error e =>
    have hraise : Orderly R (do
        cut pos [.function f]
        settleBeside e.refs
        throw e : Script Unit) :=
      .bind (.lift (orderly_cut _ _)) fun _ => .bind (.lift (orderly_settleBeside _)) fun _ =>
        .throw e
    exact (hraise Q hQ _ hw).2

end

/-! ## Following a course -/

theorem attempt_congr {ε α : Type} {x y : EStateM ε World α} {w : World} (h : x w = y w) :
    attempt x w = attempt y w := by
  unfold attempt
  rw [h]

theorem attempt_world {ε α : Type} (x : EStateM ε World α) (w : World) :
    (attempt x w).2 = worldAfter (x w) := by
  unfold attempt
  cases x w <;> rfl

namespace Stable

variable {P : Stable} {own : Bool} {α : Type}

section

variable {m : Type → Type} [Monad m] [MonadStateOf World m] [Program m]

/-- A change of the world that follows a course. -/
theorem orderly_modifyGet {f : World → α × World}
    (h : ∀ w b, ∃ b', World.Course own w b (f w).2 b') :
    Orderly (P.regime own) (modifyGet f : m α) := by
  rintro _ ⟨w, b, hw, rfl⟩
  refine keeps_modifyGet fun w' ⟨b', hw'⟩ => ?_
  obtain ⟨b'', h'⟩ := h w' b'
  exact ⟨b'', hw'.trans h'⟩

end

/-! ## Calls -/

/-- Leaving a call gives back the frame that was entered. -/
theorem course_leaveCall (own : Bool) (pos : Nat) (f : FunctionRef) (wanted : Int)
    (outcome : Except Raise Nat) {w w₁ : World} {b b₁ : List Pending} (frame : Frame)
    (hw : P.Holds w b)
    (h : World.Course false { w with machine := w.machine.pushFrame frame } b w₁ b₁) :
    ∃ b', World.Course own w b (worldAfter (leaveCall pos f wanted outcome w₁)) b' :=
  (P.regime own).leaveCall ⟨w, b, hw, rfl⟩ ⟨b₁, .called frame h⟩ pos f wanted outcome

variable {E E' : Engine}

/-- A call enters a frame and leaves it again. -/
theorem alike_call (hE : ∀ f, Alike (P.regime false) (E.run f) (E'.run f)) (nargs wanted : Int) :
    Alike (P.regime own) (call E nargs wanted) (call E' nargs wanted) := by
  refine alike_iff.mpr fun w b hw => ?_
  cases hslot : w.machine.calleeSlot? nargs.toNat with
  | none =>
    rw [call_of_noSlot E wanted hslot, call_of_noSlot E' wanted hslot]
    exact ⟨rfl, b, .refl w b⟩
  | some pos =>
    have hlook : Orderly (P.regime own) (calleeAt pos) := orderly_calleeAt pos
    replace hlook := (alike_iff.mp hlook w b hw).2
    obtain ⟨f, stack, -, hfound⟩ | ⟨e, w₁, hfail, -⟩ := calleeAt_eq w pos
    · cases hdeep : w.machine.isTooDeep with
      | true =>
        -- No frame is entered: the stack is cut at the callee and the call raises.
        let w₁ : World := { w with machine := { w.machine with stack } }
        have hdeep' : w₁.machine.isTooDeep = true := hdeep
        have hover : Orderly (P.regime own) (overflow pos f) := orderly_overflow pos f
        obtain ⟨b', hafter⟩ := (alike_iff.mp hover w₁ b (P.stack stack hw)).2
        rw [call_of_tooDeep E wanted hslot hfound hdeep',
          call_of_tooDeep E' wanted hslot hfound hdeep']
        exact ⟨rfl, b', .trans (.stack stack) hafter⟩
      | false =>
        -- Both engines run the body from the same world, so leaving the call they do the same.
        let w₁ : World := { w with machine := { w.machine with stack } }
        have hw₁ : P.Holds w₁ b := P.stack stack hw
        obtain ⟨hsame, b₁, hbody⟩ := alike_iff.mp (hE f) (w.entered pos f stack) b
          (P.frames _ hw₁)
        rw [call_of_callee E wanted hslot hfound hdeep, call_of_callee E' wanted hslot hfound hdeep,
          lift_bind, lift_bind, ← attempt_congr hsame]
        refine ⟨rfl, ?_⟩
        rw [← attempt_world] at hbody
        obtain ⟨b', hafter⟩ := course_leaveCall own pos f wanted _ ⟨pos + 1, some f⟩ hw₁ hbody
        exact ⟨b', .trans (.stack stack) hafter⟩
    · rw [call_of_noCallee E wanted hslot hfail, call_of_noCallee E' wanted hslot hfail]
      rw [hfail] at hlook
      exact ⟨rfl, hlook⟩

/-! ## Finalizers and bodies -/

theorem batch {Q : World → Prop} {w : World} (hQ : (P.regime own).Has Q) (hw : Q w) :
    ∃ Q', (P.regime own).Has Q' ∧ Q' (takeGraveyard w).2 ∧ (∀ w', Q' w' → Q w') ∧
      ∀ p ∈ w.machine.graveyard, Keeps Q' (resurrect p) := by
  obtain ⟨w₀, b₀, hP, rfl⟩ := hQ
  obtain ⟨b, hw⟩ := hw
  -- From here on the whole graveyard counts as taken, so all of it may come back.
  have htake : World.Course own w₀ b₀ (takeGraveyard w).2 (b ++ w.machine.graveyard) :=
    hw.trans (.step .takeGraveyard)
  refine ⟨_, ⟨_, _, P.course htake hP, rfl⟩, ⟨_, .refl _ _⟩, ?_, ?_⟩
  · rintro w' ⟨b', hw'⟩
    exact ⟨b', htake.trans hw'⟩
  · intro p hp
    refine keeps_modifyGet ?_
    rintro w' ⟨b', hw'⟩
    exact ⟨b', hw'.trans (.step (.revive p (hw'.taken (List.mem_append_right _ hp))))⟩

theorem orderly_setArguments (arguments : List HostValue) :
    Orderly (P.regime true) (setArguments arguments) := by
  refine orderly_modifyGet fun w b => ?_
  dsimp only
  split
  · rename_i h
    exact ⟨b, .arguments h arguments⟩
  · exact ⟨b, .refl w b⟩

theorem alike_activate (a : Activation) {x y : Host α} (h : Alike (P.regime true) x y) :
    Alike (P.regime own) (activate a x) (activate a y) := by
  refine alike_action_iff.mpr fun w b hw => ?_
  obtain ⟨hsame, b', hbody⟩ := alike_iff.mp h { w with activations := a :: w.activations } b
    (P.activations _ hw)
  have hrun (z : Host α) : activate a z w =
      (((attempt z { w with activations := a :: w.activations }).1,
        ((attempt z { w with activations := a :: w.activations }).2.activations.head?.getD
          default).arguments),
        { (attempt z { w with activations := a :: w.activations }).2 with
          activations := w.activations }) := rfl
  rw [hrun x, hrun y, ← attempt_congr hsame]
  rw [← attempt_world] at hbody
  exact ⟨rfl, b', .activated a hbody⟩

/-- The courses from the worlds with a stable property. -/
def conduct (P : Stable) : Conduct where
  regime := P.regime
  stores _ := inferInstance
  learns _ := inferInstance
  objectAssign := orderly_objectAssign
  push := orderly_push
  popValue := orderly_popValue
  setTop _ := orderly_onStack _ fun m => m.resize_eq _
  remove i := orderly_onStack _ fun m => m.remove_eq i
  replace i := orderly_onStack _ fun m => m.replace_eq i
  insert := orderly_insert
  cutFrame pos _ _ h := alike_cutFrame pos h
  call := alike_call
  batch := batch
  setArguments := orderly_setArguments
  activate := alike_activate

instance (P : Stable) : P.conduct.Fills where
  fills own := inferInstanceAs (P.regime own).Fills

end Stable

/-! ## What is stored -/

/-- A regime that speaks of objects, static cells and classes only. Classes of arrays may join. -/
class Regime.Stored (R : Regime) : Prop where
  of_same : ∀ {Q : World → Prop} {w w' : World}, R.Has Q → Q w → w'.objects = w.objects →
    w'.cells = w.cells → w.catalog.Grows w'.catalog → Q w'

section

variable {R : Regime} [R.Stored] {α : Type}

instance : R.Restacks where
  restack _ hQ hw := Regime.Stored.of_same hQ hw rfl rfl (.refl _)

instance : R.Learns where
  learn _ hQ hw _ :=
    Regime.Stored.of_same hQ hw rfl rfl (World.grows_modifySession fun s _ => .refl s.catalog)

/-- A change of something else. -/
theorem orderly_elsewhere {m : Type → Type} [Monad m] [MonadStateOf World m] [Program m]
    {f : World → α × World} (hobjects : ∀ w : World, (f w).2.objects = w.objects)
    (hcells : ∀ w : World, (f w).2.cells = w.cells)
    (hcatalog : ∀ w : World, (f w).2.catalog = w.catalog) : Orderly R (modifyGet f : m α) :=
  fun _ hQ => keeps_modifyGet fun w hw =>
    Regime.Stored.of_same hQ hw (hobjects w) (hcells w) (hcatalog w ▸ .refl _)

theorem alike_callStored {E E' : Engine} (hE : ∀ f, Alike R (E.run f) (E'.run f))
    (nargs wanted : Int) : Alike R (call E nargs wanted) (call E' nargs wanted) := by
  refine .bind (.lift orderly_readMachine) fun m => ?_
  cases m.calleeSlot? nargs.toNat with
  | none => exact orderly_raiseMessage _
  | some pos =>
    refine .bind (orderly_calleeAt pos) fun f => .bind (.lift orderly_readMachine) fun m => ?_
    have hpush : Orderly R (modifyMachine (·.pushFrame ⟨pos + 1, some f⟩)) :=
      orderly_elsewhere (fun _ => rfl) (fun _ => rfl) fun _ => rfl
    have hleave (outcome : Except Raise Nat) : Orderly R (leaveCall pos f wanted outcome) :=
      fun Q hQ w hw => ⟨rfl, R.leaveCall hQ (Regime.Stored.of_same hQ hw rfl rfl (.refl _)) ..⟩
    split
    · exact orderly_overflow pos f
    · exact .bind (.lift hpush) fun _ => .bind (.lift (hE f).attempt) hleave

theorem alike_activateStored (a : Activation) {x y : Host α} (h : Alike R x y) :
    Alike R (activate a x) (activate a y) := by
  have henter : Orderly R (modify fun w : World => { w with activations := a :: w.activations } :
      Action Unit) := orderly_elsewhere (fun _ => rfl) (fun _ => rfl) fun _ => rfl
  have hleave (outer : List Activation) : Orderly R (modify fun w : World =>
      { w with activations := outer } : Action Unit) :=
    orderly_elsewhere (fun _ => rfl) (fun _ => rfl) fun _ => rfl
  exact .bind .get fun w => .bind henter fun _ => .bind h.attempt fun _ =>
    .bind (.bind .get fun _ => .pure _) fun _ => .bind (hleave w.activations) fun _ => .pure _

variable (R) in
/-- The conduct of a regime that speaks of what is stored. -/
def Conduct.ofStored [R.Stores] (hassign : Orderly R ScriptBridge.objectAssign) : Conduct where
  regime _ := R
  stores _ := inferInstance
  learns _ := inferInstance
  objectAssign := hassign
  push := orderly_push
  popValue := orderly_popValue
  setTop _ := orderly_onStack _ fun m => m.resize_eq _
  remove i := orderly_onStack _ fun m => m.remove_eq i
  replace i := orderly_onStack _ fun m => m.replace_eq i
  insert := orderly_insert
  cutFrame pos _ _ h := alike_cutFrame pos h
  call := alike_callStored
  batch {_ Q w} hQ hw := ⟨Q, hQ, Regime.Stored.of_same hQ hw rfl rfl (.refl _), fun _ h => h,
    fun p _ => orderly_elsewhere (fun _ => rfl) (fun _ => rfl) (fun _ => rfl) Q hQ⟩
  setArguments arguments := by
    refine orderly_elsewhere ?_ ?_ ?_
    all_goals
      intro w
      dsimp only
      split <;> rfl
  activate := alike_activateStored

end

end ScriptBridge
