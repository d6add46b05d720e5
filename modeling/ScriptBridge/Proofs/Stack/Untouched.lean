import ScriptBridge.Proofs.Program
import ScriptBridge.Vm.Collect
import ScriptBridge.Vm.Reference

/-!
# Programs that leave the stack alone

Most of what a machine does changes the heap, and leaves the slots of the stack and the calls under
way as they were, also where it pushed a value on its way and took it off again. `StackFree` says so
of a program, and the rules follow the shape of the program. Reclaiming memory empties cells and
remembers finalizers, but never changes the stack.
-/

namespace ScriptBridge

/-- The slots, the calls under way and the limits are the same. -/
structure Machine.SameStack (m m' : Machine) : Prop where
  stack : m'.stack = m.stack
  frames : m'.frames = m.frames
  limits : m'.limits = m.limits

theorem Machine.SameStack.refl (m : Machine) : m.SameStack m := ⟨rfl, rfl, rfl⟩

theorem Machine.SameStack.trans {m₁ m₂ m₃ : Machine} (h : m₁.SameStack m₂)
    (h' : m₂.SameStack m₃) : m₁.SameStack m₃ :=
  ⟨h'.stack.trans h.stack, h'.frames.trans h.frames, h'.limits.trans h.limits⟩

/-- The running frame lies in the stack, as it does in every machine that runs. -/
def Machine.HasFrame (m : Machine) : Prop := m.base ≤ m.stack.size

theorem Machine.SameStack.hasFrame {m m' : Machine} (h : m.SameStack m') (hm : m.HasFrame) :
    m'.HasFrame := by
  unfold HasFrame base at hm ⊢
  rw [h.frames, h.stack]
  exact hm

/-- A program leaves the stack as it found it. -/
def StackFree {m : Type → Type} [Monad m] [MonadStateOf World m] [Program m] {α : Type}
    (x : m α) : Prop :=
  ∀ machine : Machine, machine.HasFrame → Keeps (fun w => machine.SameStack w.machine) x

namespace StackFree

section

variable {m : Type → Type} [Monad m] [MonadStateOf World m] [Program m]
variable {α β : Type} {x : m α} {f : α → m β}

protected theorem pure (a : α) : StackFree (pure a : m α) := fun _ _ => keeps_pure a

protected theorem bind (hx : StackFree x) (hf : ∀ a, StackFree (f a)) : StackFree (x >>= f) :=
  fun machine hm => (hx machine hm).bind fun a => hf a machine hm

protected theorem get : StackFree (get : m World) := fun _ _ => keeps_get

protected theorem modifyGet {g : World → α × World}
    (h : ∀ w : World, w.machine.SameStack (g w).2.machine) : StackFree (modifyGet g : m α) :=
  fun _ _ => keeps_modifyGet fun w hw => hw.trans (h w)

protected theorem modify {g : World → World} (h : ∀ w : World, w.machine.SameStack (g w).machine) :
    StackFree (modify g : m Unit) :=
  fun _ _ => keeps_modify fun w hw => hw.trans (h w)

end

section

variable {α ε : Type}

protected theorem throw (e : ε) : StackFree (throw e : EStateM ε World α) :=
  fun _ _ => keeps_throw e

protected theorem lift {x : Action α} (h : StackFree x) : StackFree (liftM x : EStateM ε World α) :=
  fun machine hm => (h machine hm).lift

protected theorem attempt {x : EStateM ε World α} (h : StackFree x) :
    StackFree (ScriptBridge.attempt x) :=
  fun machine hm => (h machine hm).attempt

end

end StackFree

/-! ## Values in passing -/

theorem Machine.HasFrame.push {m : Machine} (h : m.HasFrame) (v : Value) :
    (m.push v).HasFrame := by
  show m.base ≤ (m.stack.push v).size
  rw [Array.size_push]
  exact Nat.le_succ_of_le h

/-- Taking the value that was pushed leaves the machine as before. -/
theorem Machine.popValue_push {m : Machine} (h : m.HasFrame) (v : Value) :
    (m.push v).popValue = (v, m) := by
  have hlt : (m.push v).base < (m.push v).stack.size := by
    show m.base < (m.stack.push v).size
    rw [Array.size_push]
    exact Nat.lt_succ_of_le h
  have hback : (m.push v).stack.back? = some v := Array.back?_push
  have hpop : (m.push v).stack.pop = m.stack := Array.pop_push
  unfold popValue
  rw [if_pos hlt, hback, hpop]
  rfl

theorem Machine.SameStack.popValue {m m' : Machine} (h : m.SameStack m') :
    m'.popValue.1 = m.popValue.1 ∧ m.popValue.2.SameStack m'.popValue.2 := by
  have hbase : m'.base = m.base := by
    unfold base
    rw [h.frames]
  unfold Machine.popValue
  rw [hbase, h.stack]
  split
  · exact ⟨rfl, rfl, h.frames, h.limits⟩
  · exact ⟨rfl, h⟩

/-! ## Memory -/

theorem World.modifyMachineOf_sameStack (w : World) (id : Nat) (f : Machine → Machine)
    (h : ∀ m : Machine, m.SameStack (f m)) :
    w.machine.SameStack (w.modifyMachineOf id f).machine := by
  unfold modifyMachineOf
  split
  · exact h w.machine
  · exact .refl _

theorem World.empty_sameStack (w : World) (d : Dropped) :
    w.machine.SameStack (w.empty d).1.machine := by
  unfold empty
  cases d.ref with
  | userdata u =>
    dsimp only
    cases w.userdata.get? u.index with
    | none => exact .refl _
    | some cell =>
      dsimp only
      split
      · exact modifyMachineOf_sameStack { w with userdata := w.userdata.erase u.index } _ _
          fun _ => ⟨rfl, rfl, rfl⟩
      · exact .refl _
  | handle h =>
    dsimp only
    cases w.handles.get? h.index with
    | none => exact .refl _
    | some cell => exact ⟨rfl, rfl, rfl⟩
  | _ => exact .refl _

theorem World.settleStep_sameStack (w : World) : w.machine.SameStack w.settleStep.machine := by
  unfold settleStep
  cases w.dropped with
  | nil => exact .refl _
  | cons d rest =>
    dsimp only
    split
    · exact .refl _
    · exact empty_sameStack { w with dropped := rest } d

theorem World.settleSteps_sameStack (fuel : Nat) (w : World) :
    w.machine.SameStack (w.settleSteps fuel).machine := by
  induction fuel generalizing w with
  | zero => exact .refl _
  | succ fuel ih =>
    unfold settleSteps
    split
    · exact .refl _
    · exact (settleStep_sameStack w).trans (ih _)

theorem World.settle_sameStack (w : World) : w.machine.SameStack w.settle.machine := by
  unfold settle
  split
  · exact .refl _
  · exact settleSteps_sameStack _ w

/-- Noting references changes nothing of the machine. -/
theorem discard_machine (refs : List Ref) (during : Option TableRef) (w : World) :
    (discard refs during w).2.machine = w.machine := by
  unfold discard
  split <;> rfl

theorem release_sameStack (refs : List Ref) (during : Option TableRef) (w : World) :
    w.machine.SameStack (release refs during w).2.machine := by
  have h := World.settle_sameStack (discard refs during w).2
  rw [discard_machine] at h
  exact h

theorem settleBeside_sameStack (refs : List Ref) (w : World) :
    w.machine.SameStack (settleBeside refs w).2.machine :=
  World.settle_sameStack { w with held := refs ++ w.held }

end ScriptBridge
