import ScriptBridge.Bridge.Embedding
import ScriptBridge.Proofs.Stack.Discipline

/-!
# The stack is balanced on every path

What the host asks of a machine leaves its stack as it was, whether it succeeds or fails:
conversions, matching and replay; calls of functions and of fields of tables; reading globals;
making an exception of an error value; running finalizers. Pushing a host value adds one slot.

Between a push and what takes the value off again lie conversions, scripts and early ends. The
values on top are therefore only counted: `Machine.Above m n` says that `n` slots lie on top of
those of `m`. A call takes its callee and arguments away and leaves its results, or nothing when
it fails, and cutting the frame back to its old top leaves nothing in any case.
-/

namespace ScriptBridge

/-! ## Slots on top -/

/-- `n` slots lie on top of those of a machine; the calls under way and the limits are its own. -/
structure Machine.Above (m : Machine) (n : Nat) (m' : Machine) : Prop where
  below : m.stack.toList <+: m'.stack.toList
  size : m'.stack.size = m.stack.size + n
  frames : m'.frames = m.frames
  limits : m'.limits = m.limits

namespace Machine.Above

variable {m m' m'' : Machine} {n k : Nat}

theorem refl (m : Machine) : m.Above 0 m := ⟨List.prefix_refl _, rfl, rfl, rfl⟩

theorem same (h : m.Above n m') (hs : m'.SameStack m'') : m.Above n m'' where
  below := by
    rw [hs.stack]
    exact h.below
  size := by
    rw [hs.stack]
    exact h.size
  frames := hs.frames.trans h.frames
  limits := hs.limits.trans h.limits

theorem of_same (h : m.SameStack m') : m.Above 0 m' := (refl m).same h

theorem sameStack (h : m.Above 0 m') : m.SameStack m' where
  stack := by
    have hlength : m.stack.toList.length = m'.stack.toList.length := by
      rw [Array.length_toList, Array.length_toList, h.size, Nat.add_zero]
    exact (Array.toList_inj.mp (h.below.eq_of_length hlength)).symm
  frames := h.frames
  limits := h.limits

theorem push (h : m.Above n m') (v : Value) : m.Above (n + 1) (m'.push v) where
  below := by
    show m.stack.toList <+: (m'.stack.push v).toList
    rw [Array.toList_push]
    exact h.below.trans (List.prefix_append _ _)
  size := by
    show (m'.stack.push v).size = _
    rw [Array.size_push, h.size]
    rfl
  frames := h.frames
  limits := h.limits

/-- One slot on top is a pushed value. -/
theorem exists_push (h : m.Above 1 m') : ∃ v, (m.push v).SameStack m' := by
  obtain ⟨rest, hrest⟩ := h.below
  have hlength : rest.length = 1 := by
    have hsize := congrArg List.length hrest
    simp only [List.length_append, Array.length_toList, h.size] at hsize
    omega
  obtain ⟨v, rfl⟩ := List.length_eq_one_iff.mp hlength
  refine ⟨v, ?_, h.frames, h.limits⟩
  show m'.stack = m.stack.push v
  rw [← Array.toList_inj, Array.toList_push]
  exact hrest.symm

theorem base_eq (h : m.Above n m') : m'.base = m.base := by
  unfold Machine.base
  rw [h.frames]

theorem top_eq (h : m.Above 0 m') : m'.top = m.top := by
  unfold Machine.top
  rw [h.base_eq, h.size, Nat.add_zero]

theorem hasFrame (h : m.Above n m') (hm : m.HasFrame) : m'.HasFrame := by
  unfold HasFrame at hm ⊢
  rw [h.base_eq, h.size]
  exact Nat.le_add_right_of_le hm

theorem toList_take (h : m.Above n m') : m'.stack.toList.take m.stack.size = m.stack.toList := by
  rw [← Array.length_toList]
  exact (List.prefix_iff_eq_take.mp h.below).symm

theorem popValue (h : m.Above (n + 1) m') (hm : m.HasFrame) : m.Above n m'.popValue.2 := by
  have hlt : m'.base < m'.stack.size := by
    unfold HasFrame at hm
    rw [h.base_eq, h.size]
    omega
  unfold Machine.popValue
  rw [if_pos hlt]
  refine ⟨?_, ?_, h.frames, h.limits⟩
  · show m.stack.toList <+: m'.stack.pop.toList
    rw [Array.toList_pop, List.dropLast_eq_take, Array.length_toList, h.size]
    refine List.prefix_take_iff.mpr ⟨h.below, ?_⟩
    rw [Array.length_toList]
    omega
  · show m'.stack.pop.size = m.stack.size + n
    rw [Array.size_pop, h.size]
    omega

/-- Cutting the frame back to its old top. -/
theorem setTop (h : m.Above n m') (hm : m.HasFrame) : m.SameStack (m'.setTop m.top).1 := by
  have htop : m'.base + m.top = m.stack.size := by
    unfold HasFrame at hm
    unfold top
    rw [h.base_eq]
    omega
  have hnonneg : ¬ (m.top : Int) < 0 := by omega
  unfold Machine.setTop resize
  rw [if_neg hnonneg, Int.toNat_natCast, htop, if_pos (by rw [h.size]; omega)]
  refine ⟨?_, h.frames, h.limits⟩
  show m'.stack.take m.stack.size = m.stack
  rw [← Array.toList_inj, toList_takeSlots, h.toList_take]

/-- Moving the top value one slot down. -/
theorem insert (h : m.Above (n + 2) m') (hm : m.HasFrame) :
    m.Above (n + 2) (m'.insert (-2)) := by
  have hslot : m'.slot? (-2) = some (m'.stack.size - 2) := by
    have hback : (-(-2 : Int)).toNat = 2 := rfl
    unfold HasFrame at hm
    unfold slot?
    rw [if_neg (by decide), if_pos (by decide), hback, if_pos]
    simp only [Bool.and_eq_true, decide_eq_true_eq]
    rw [h.base_eq, h.size]
    omega
  unfold Machine.insert
  rw [hslot]
  cases hv : m'.stack.back? with
  | none => exact h
  | some v =>
    refine ⟨?_, ?_, h.frames, h.limits⟩
    · show m.stack.toList <+: (m'.stack.pop.insertIdxIfInBounds (m'.stack.size - 2) v).toList
      rw [toList_insertSlot, Array.toList_pop]
      refine prefix_insertIdx ?_ ?_ v
      · rw [List.dropLast_eq_take, Array.length_toList, h.size]
        refine List.prefix_take_iff.mpr ⟨h.below, ?_⟩
        rw [Array.length_toList]
        omega
      · rw [Array.length_toList, h.size]
        omega
    · show (m'.stack.pop.insertIdxIfInBounds (m'.stack.size - 2) v).size = m.stack.size + (n + 2)
      rw [← Array.length_toList, toList_insertSlot, Array.toList_pop,
        List.length_insertIdx_of_le_length, List.length_dropLast, Array.length_toList, h.size]
      · omega
      · rw [List.length_dropLast, Array.length_toList]
        omega

end Machine.Above

/-! ## Following a program -/

/-- The world's machine has `n` slots on top of those of a machine. -/
def Machine.On (m : Machine) (n : Nat) (w : World) : Prop := m.Above n w.machine

/-- From worlds with a property an action ends as stated. -/
def Leads {α : Type} (P : World → Prop) (x : Action α) (Q : α → World → Prop) : Prop :=
  ∀ w, P w → Q (x w).1 (x w).2

/-- A program has succeeded as stated, or has failed with the stack of `m`. -/
def Machine.Ends {α ε : Type} (m : Machine) (Q : α → World → Prop) :
    EStateM.Result ε World α → Prop
  | .ok a w => Q a w
  | .error _ w => m.SameStack w.machine

/-- From worlds with a property a program succeeds as stated, or fails with the stack of `m`. -/
def LeadsOrFails {α ε : Type} (m : Machine) (P : World → Prop) (x : EStateM ε World α)
    (Q : α → World → Prop) : Prop :=
  ∀ w, P w → m.Ends Q (x w)

section

variable {α β ε : Type} {m : Machine} {n : Nat} {P : World → Prop} {Q : α → World → Prop}
variable {R : β → World → Prop}

namespace Leads

protected theorem pure {a : α} (h : ∀ w, P w → Q a w) : Leads P (pure a) Q := h

protected theorem bind {x : Action α} {f : α → Action β} (hx : Leads P x Q)
    (hf : ∀ a, Leads (Q a) (f a) R) : Leads P (x >>= f) R :=
  fun w hw => hf _ _ (hx w hw)

theorem weaken {x : Action α} {Q' : α → World → Prop} (hx : Leads P x Q)
    (h : ∀ a w, Q a w → Q' a w) : Leads P x Q' :=
  fun w hw => h _ _ (hx w hw)

/-- However many slots are on top, there is some number of them. -/
theorem of_some {x : Action α} (h : ∀ w, P w → ∃ k, m.On k w) (hx : ∀ k, Leads (m.On k) x Q) :
    Leads P x Q := by
  intro w hw
  obtain ⟨k, hk⟩ := h w hw
  exact hx k w hk

/-- An action that leaves the stack alone keeps the slots on top. -/
theorem of_stackFree {x : Action α} (hx : StackFree x) (hm : m.HasFrame) :
    Leads (m.On n) x fun _ => m.On n :=
  fun w hw => Machine.Above.same hw
    (hx w.machine (Machine.Above.hasFrame hw hm) w (.refl _)).2

/-- So does a program that may fail. -/
theorem attempt_of_stackFree {x : EStateM ε World α} (hx : StackFree x) (hm : m.HasFrame) :
    Leads (m.On n) (attempt x) fun _ => m.On n :=
  of_stackFree hx.attempt hm

theorem push (v : Value) : Leads (m.On n) (push v) fun _ => m.On (n + 1) :=
  fun _ hw => Machine.Above.push hw v

/-- Pushing what an action gives that leaves the stack alone. -/
theorem push_of_stackFree {x : Action Value} (hx : StackFree x) (hm : m.HasFrame) :
    Leads (m.On n) (do ScriptBridge.push (← x)) fun _ => m.On (n + 1) :=
  .bind (of_stackFree hx hm) fun v => push v

theorem pushHost (v : HostValue) (hm : m.HasFrame) :
    Leads (m.On n) (pushHost v) fun _ => m.On (n + 1) :=
  push_of_stackFree (orderly_toValue v).stackFree hm

theorem pushObject (o : ObjectRef) (hm : m.HasFrame) :
    Leads (m.On n) (pushObject o) fun _ => m.On (n + 1) :=
  push_of_stackFree (orderly_objectValue o).stackFree hm

theorem pushType (cls : Class) (hm : m.HasFrame) :
    Leads (m.On n) (pushType cls) fun _ => m.On (n + 1) :=
  push_of_stackFree (orderly_typeValue cls).stackFree hm

theorem pushHandle (h : HandleRef) (hm : m.HasFrame) :
    Leads (m.On n) (pushHandle h) fun _ => m.On (n + 1) :=
  push_of_stackFree (orderly_handleValue h).stackFree hm

theorem popValue (hm : m.HasFrame) : Leads (m.On (n + 1)) popValue fun _ => m.On n :=
  fun _ hw => Machine.Above.popValue hw hm

theorem insert (hm : m.HasFrame) :
    Leads (m.On (n + 2)) (modifyMachine (·.insert (-2))) fun _ => m.On (n + 2) :=
  fun _ hw => Machine.Above.insert hw hm

theorem setTop (hm : m.HasFrame) {top : Nat} (htop : top = m.top) :
    Leads (m.On n) (setTop top) fun _ => m.On 0 := by
  intro w hw
  rw [htop]
  have hcut : m.SameStack (w.machine.setTop m.top).1 := Machine.Above.setTop hw hm
  exact .of_same (hcut.trans
    (release_sameStack _ _ { w with machine := (w.machine.setTop m.top).1 }))

/-- Reading the top of the frame before anything is on it. -/
theorem readTop {f : Machine → Action β}
    (hf : ∀ m' : Machine, m'.top = m.top → Leads (m.On 0) (f m') R) :
    Leads (m.On 0) (readMachine >>= f) R :=
  fun w hw => hf w.machine (Machine.Above.top_eq hw) w hw

theorem attempt {x : EStateM ε World α} (hx : LeadsOrFails m P x Q) :
    Leads P (attempt x) fun r w => (∀ a, r = .ok a → Q a w) ∧
      ∀ e, r = .error e → m.On 0 w := by
  intro w hw
  have hend := hx w hw
  cases hr : x w with
  | ok a w' =>
    rw [hr] at hend
    rw [attempt_of_ok hr]
    refine ⟨fun b hb => ?_, fun e he => ?_⟩
    · cases hb
      exact hend
    · cases he
  | error e w' =>
    rw [hr] at hend
    rw [attempt_of_error hr]
    refine ⟨fun b hb => ?_, fun _ _ => .of_same hend⟩
    cases hb

end Leads

namespace LeadsOrFails

protected theorem pure {a : α} (h : ∀ w, P w → Q a w) :
    LeadsOrFails m P (pure a : EStateM ε World α) Q := h

protected theorem bind {x : EStateM ε World α} {f : α → EStateM ε World β}
    (hx : LeadsOrFails m P x Q) (hf : ∀ a, LeadsOrFails m (Q a) (f a) R) :
    LeadsOrFails m P (x >>= f) R := by
  intro w hw
  have hend := hx w hw
  cases hr : x w with
  | ok a w' =>
    rw [hr] at hend
    rw [bind_of_ok hr]
    exact hf a w' hend
  | error e w' =>
    rw [hr] at hend
    rw [bind_of_error hr]
    exact hend

/-- However many slots are on top, there is some number of them. -/
theorem of_some {x : EStateM ε World α} (h : ∀ w, P w → ∃ k, m.On k w)
    (hx : ∀ k, LeadsOrFails m (m.On k) x Q) : LeadsOrFails m P x Q := by
  intro w hw
  obtain ⟨k, hk⟩ := h w hw
  exact hx k w hk

protected theorem lift {x : Action α} (hx : Leads P x Q) :
    LeadsOrFails m P (liftM x : EStateM ε World α) Q := hx

protected theorem throw (e : ε) (h : ∀ w, P w → m.On 0 w) :
    LeadsOrFails m P (throw e : EStateM ε World α) Q :=
  fun w hw => (h w hw).sameStack

theorem readTop {f : Machine → EStateM ε World β}
    (hf : ∀ m' : Machine, m'.top = m.top → LeadsOrFails m (m.On 0) (f m') R) :
    LeadsOrFails m (m.On 0) (liftM readMachine >>= f) R :=
  fun w hw => hf w.machine (Machine.Above.top_eq hw) w hw

theorem of_stackFree {x : EStateM ε World α} (hx : StackFree x) (hm : m.HasFrame) :
    LeadsOrFails m (m.On 0) x fun _ => m.On 0 := by
  intro w hw
  have hsame := (hx w.machine (Machine.Above.hasFrame hw hm) w (.refl _)).2
  cases hr : x w with
  | ok a w' =>
    rw [hr] at hsame
    exact Machine.Above.same hw hsame
  | error e w' =>
    rw [hr] at hsame
    exact (Machine.Above.sameStack hw).trans hsame

end LeadsOrFails

/-- A program that ends without slots on top leaves the stack alone. -/
theorem StackFree.of_leadsOrFails {x : EStateM ε World α}
    (h : ∀ m : Machine, m.HasFrame → LeadsOrFails m (m.On 0) x fun _ => m.On 0) : StackFree x := by
  refine fun machine hm w hw => ⟨rfl, ?_⟩
  have hend := h machine hm w (.of_same hw)
  cases hr : x w with
  | ok a w' =>
    rw [hr] at hend
    exact Machine.Above.sameStack hend
  | error e w' =>
    rw [hr] at hend
    exact hend

theorem StackFree.of_leads {x : Action α}
    (h : ∀ m : Machine, m.HasFrame → Leads (m.On 0) x fun _ => m.On 0) : StackFree x :=
  fun machine hm w hw => ⟨rfl, (h machine hm w (.of_same hw)).sameStack⟩

end

/-! ## Calls -/

section

variable {E : Engine} (hE : ∀ f, Framed (E.run f) (E.run f))
include hE

/-- A call takes its callee and arguments away: it leaves its results, or nothing when it fails. -/
theorem leads_call {m : Machine} (hm : m.HasFrame) (nargs wanted : Int) :
    LeadsOrFails m (m.On (nargs.toNat + 1)) (call E nargs wanted) fun _ w =>
      ∃ k, m.On k w ∧ (0 ≤ wanted → k = wanted.toNat) := by
  intro w hw
  have hslot : w.machine.calleeSlot? nargs.toNat = some m.stack.size := by
    have hpos : w.machine.stack.size - (nargs.toNat + 1) = m.stack.size := by
      rw [hw.size, Nat.add_sub_cancel]
    unfold Machine.HasFrame at hm
    unfold Machine.calleeSlot?
    rw [hpos, hw.base_eq, hw.size, if_pos]
    simp only [Bool.and_eq_true, decide_eq_true_eq]
    omega
  obtain ⟨e, w', hcall, -, hcut⟩ |
    ⟨f, stack, k, w₂, w', -, -, hcall, -, hframes, hlimits, hstack⟩ := call_cases hE wanted hslot
  · rw [hcall]
    have htake : w.machine.stack.take m.stack.size = m.stack := by
      rw [← Array.toList_inj, toList_takeSlots, hw.toList_take]
    exact ⟨hcut.stack.trans htake, hcut.frames.trans hw.frames, hcut.limits.trans hw.limits⟩
  · rw [hcall]
    rw [hw.toList_take] at hstack
    refine ⟨(adjust (w₂.machine.lastValues k) wanted).length, ⟨?_, ?_, ?_, ?_⟩, length_adjust _⟩
    · rw [hstack]
      exact List.prefix_append _ _
    · rw [← Array.length_toList, hstack, List.length_append, Array.length_toList]
    · exact hframes.trans hw.frames
    · exact hlimits.trans hw.limits

/-- A protected call leaves its results or the one error it caught. -/
theorem leads_protectedCall {m : Machine} (hm : m.HasFrame) (nargs wanted : Int) :
    LeadsOrFails m (m.On (nargs.toNat + 1)) (protectedCall E nargs wanted) fun status w =>
      ∃ k, m.On k w ∧ (status ≠ .ok → k = 1) := by
  intro w hw
  have hend := leads_call hE hm nargs wanted w hw
  cases hcall : call E nargs wanted w with
  | ok a w' =>
    rw [hcall] at hend
    obtain ⟨k, hk, -⟩ := hend
    rw [protectedCall_of_ok hcall]
    exact ⟨k, hk, fun h => absurd rfl h⟩
  | error e w' =>
    have hsame : m.SameStack w'.machine := by
      rw [hcall] at hend
      exact hend
    by_cases he : e = .exhausted
    · subst he
      rw [protectedCall_of_exhausted hcall]
      exact hsame
    · obtain ⟨w₂, hprotected, hpushed⟩ := protectedCall_of_error hcall he
      rw [hprotected]
      -- The stack was cut already, so the second cut at the callee's slot takes nothing.
      have hpos :
          max (w.machine.stack.size - (nargs.toNat + 1)) w'.machine.base = m.stack.size := by
        have hbase : w'.machine.base = m.base := (Machine.Above.of_same hsame).base_eq
        unfold Machine.HasFrame at hm
        rw [hw.size, hbase]
        omega
      have hcut : m.SameStack (w'.machine.truncate m.stack.size).1 := by
        refine ⟨?_, hsame.frames, hsame.limits⟩
        show w'.machine.stack.take m.stack.size = m.stack
        rw [hsame.stack, Array.take_eq_extract, Array.extract_size]
      rw [hpos] at hpushed
      exact ⟨1, ((Machine.Above.of_same hcut).push e.toValue).same hpushed, fun _ => rfl⟩

/-! ## Access with metamethods -/

omit hE in
/-- Taking the one result of a call off the stack. -/
theorem leads_popResult {m : Machine} (hm : m.HasFrame) :
    LeadsOrFails m (fun w => ∃ k, m.On k w ∧ (0 ≤ (1 : Int) → k = (1 : Int).toNat))
      (liftM popValue : Script Value) fun _ => m.On 0 := by
  refine .lift fun w hw => ?_
  obtain ⟨k, hk, hone⟩ := hw
  rw [hone (by decide)] at hk
  exact Leads.popValue hm w hk

theorem stackFree_index (object key : Value) : StackFree (index E object key) := by
  refine .bind .get fun w => ?_
  cases w.lookUp key World.chainLimit object with
  | value v => exact .pure v
  | handler h self =>
    exact .of_leadsOrFails fun m hm => .bind (.lift (.push h)) fun _ =>
      .bind (.lift (.push self)) fun _ => .bind (.lift (.push key)) fun _ =>
        .bind (leads_call hE hm 2 1) fun _ => leads_popResult hm
  | notIndexable v => exact (orderly_raiseAt _ _).stackFree
  | tooLong => exact (orderly_raiseAt _ _).stackFree

theorem stackFree_textOf (v : Value) : StackFree (textOf E v) := by
  refine .bind .get fun w => ?_
  split
  · rename_i f _
    refine .of_leadsOrFails fun m hm => .bind (.lift (.push (.function f))) fun _ =>
      .bind (.lift (.push v)) fun _ => .bind (leads_call hE hm 1 1) fun _ =>
        .bind (leads_popResult hm) fun x => ?_
    split
    · exact .pure fun _ h => h
    · exact .of_stackFree (.bind (.lift (orderly_discard _).stackFree) fun _ =>
        (orderly_raiseMessage _).stackFree) hm
  · exact .pure _

theorem stackFree_getGlobal (name : String) : StackFree (getGlobal E name) :=
  .bind (.lift (.bind orderly_readMachine.stackFree fun _ => .pure _)) fun _ =>
    stackFree_index hE _ _

/-! ## Exceptions -/

theorem stackFree_textOrDisplay (v : Value) : StackFree (textOrDisplay E v) := by
  refine .bind (alike_tryScript (stackFree_textOf hE v).orderly).stackFree fun outcome => ?_
  cases outcome with
  | ok s => exact .pure s
  | error e => exact .bind (.lift (orderly_discard _).stackFree) fun _ => .pure _

/-- Making an exception of an error value. -/
theorem stackFree_exceptionOf (v : Value) : StackFree (exceptionOf E v) := by
  refine .bind .get fun w => ?_
  cases w.carriedException? v with
  | some e => exact .pure e
  | none =>
    cases v with
    | text s => exact .lift (orderly_newException _).stackFree
    | _ =>
      refine .of_leadsOrFails fun m hm => .readTop fun m' htop => .bind (.lift (.push _)) fun _ =>
        .bind (.lift (.attempt_of_stackFree (stackFree_textOrDisplay hE _) hm)) fun text =>
          .bind (.lift (.of_stackFree (orderly_hold _).stackFree hm)) fun _ =>
            .bind (.lift (.setTop hm htop)) fun _ =>
              .bind (.lift (.of_stackFree (orderly_unhold _).stackFree hm)) fun _ => ?_
      cases text with
      | ok text =>
        exact .of_stackFree (.bind (.lift (orderly_location 1).stackFree) fun _ =>
          .lift (orderly_newException _).stackFree) hm
      | error e => exact .throw e fun _ h => h

theorem stackFree_exceptionOfRaise (e : Raise) : StackFree (exceptionOfRaise E e) := by
  cases e with
  | runtime v => exact stackFree_exceptionOf hE v
  | stackOverflow => exact .lift (orderly_newException _).stackFree
  | exhausted => exact .throw _

/-! ## Calls of scripts by the host -/

omit hE in
theorem leads_pushInputs {m : Machine} (hm : m.HasFrame) (n : Nat) (params : List Param)
    (arguments : List HostValue) :
    Leads (m.On n) (pushInputs params arguments) fun k => m.On (n + k) := by
  induction params generalizing n arguments with
  | nil => exact .pure fun _ h => h
  | cons p params ih =>
    cases arguments with
    | nil => exact .pure fun _ h => h
    | cons v arguments =>
      unfold pushInputs
      split
      · exact ih n arguments
      · refine .bind (.pushHost v hm) fun _ => .bind (ih (n + 1) arguments) fun k => ?_
        refine .pure fun w h => ?_
        rw [Nat.add_right_comm] at h
        exact h

omit hE in
theorem leads_leaveFrame {m : Machine} (hm : m.HasFrame) {n top : Nat} (htop : top = m.top)
    (arguments : List HostValue) (result : Except Failure HostValue) :
    Leads (m.On n) (leaveFrame top arguments result) fun _ => m.On 0 :=
  .bind (.of_stackFree (orderly_hold _).stackFree hm) fun _ => .bind (.setTop hm htop) fun _ =>
    .of_stackFree (orderly_handOver _).stackFree hm

/-- What is left on the stack of a prepared call is gone when its results are read. -/
theorem leads_finishCall {m : Machine} (hm : m.HasFrame) {top nargs : Nat} (htop : top = m.top)
    (method : Method) (arguments : List HostValue) :
    Leads (m.On (nargs + 1)) (finishCall E method arguments top nargs) fun _ => m.On 0 := by
  refine .bind (Leads.attempt (leads_protectedCall hE hm nargs (-1))) fun outcome => ?_
  cases outcome with
  | error e => exact .pure fun w h => h.2 e rfl
  | ok status =>
    cases status with
    | ok =>
      refine .of_some (fun w h => (h.1 _ rfl).imp fun _ hk => hk.1) fun k => ?_
      refine .bind (.of_stackFree orderly_readMachine.stackFree hm) fun m' =>
        .bind (.of_stackFree (orderly_readResults method _ arguments).stackFree hm) fun r => ?_
      exact .bind (leads_leaveFrame hm htop _ _) fun _ => .pure fun _ h => h
    | _ =>
      refine .bind (Q := fun _ => m.On 0) (fun w h => ?_) fun v => ?_
      · obtain ⟨k, hk, hone⟩ := h.1 _ rfl
        rw [hone nofun] at hk
        exact Leads.popValue hm w hk
      · refine .bind (.of_stackFree (orderly_hold _).stackFree hm) fun _ =>
          .bind (.setTop hm htop) fun _ =>
            .bind (.attempt_of_stackFree (stackFree_exceptionOf hE v) hm) fun e =>
              .bind (.of_stackFree (orderly_unhold _).stackFree hm) fun _ =>
                .bind (.of_stackFree orderly_settle.stackFree hm) fun _ => ?_
        cases e <;> exact .pure fun _ h => h

/-- Calling a function that a handle holds. -/
theorem stackFree_callFunction (function : HandleRef) (method : Method)
    (arguments : List HostValue) : StackFree (callFunction E function method arguments) := by
  refine .bind .get fun w => ?_
  dsimp only
  split
  · exact (orderly_failedCall _ _).stackFree
  · refine .of_leads fun m hm => .readTop fun m' htop =>
      .bind (.pushHandle function hm) fun _ => .bind (leads_pushInputs hm 1 _ _) fun n => ?_
    rw [Nat.add_comm]
    exact leads_finishCall hE hm htop method arguments

/-- Calling a field of a table that a handle holds. -/
theorem stackFree_callTableMethod (table : HandleRef) (method : Method)
    (arguments : List HostValue) : StackFree (callTableMethod E table method arguments) := by
  refine .bind .get fun w => ?_
  dsimp only
  split
  · exact (orderly_failedCall _ _).stackFree
  · refine .of_leads fun m hm => ?_
    refine .readTop fun m' htop => ?_
    refine .bind (.of_stackFree (orderly_handleValue table).stackFree hm) fun self => ?_
    refine .bind (.push self) fun _ => ?_
    refine .bind (.attempt_of_stackFree (stackFree_index hE self _) hm) fun outcome => ?_
    cases outcome with
    | error e =>
      refine .bind (.of_stackFree (orderly_hold _).stackFree hm) fun _ => ?_
      refine .bind (.setTop hm htop) fun _ => ?_
      refine .bind (.attempt_of_stackFree (stackFree_exceptionOfRaise hE e) hm) fun e' => ?_
      refine .bind (.of_stackFree (orderly_unhold _).stackFree hm) fun _ => ?_
      refine .bind (.of_stackFree orderly_settle.stackFree hm) fun _ => ?_
      cases e' <;> exact .pure fun _ h => h
    | ok f =>
      refine .bind (.push f) fun _ => ?_
      split
      · refine .bind (.insert hm) fun _ => .bind (leads_pushInputs hm 2 _ _) fun n => ?_
        have hn : 2 + n = n + 1 + 1 := Nat.add_comm 2 n
        rw [hn]
        exact leads_finishCall hE hm htop method arguments
      · exact .bind (.setTop hm htop) fun _ => .pure fun _ h => h

/-! ## The session from outside -/

theorem stackFree_throwRaise {α : Type} (e : Raise) : StackFree (throwRaise E e : Host α) :=
  .bind (alike_holding _ (stackFree_exceptionOfRaise hE e).orderly).stackFree fun _ => .throw _

/-- Reading a global. -/
theorem stackFree_readGlobal (name : String) : StackFree (readGlobal E name) := by
  have htry : StackFree (tryScript (getGlobal E name)) :=
    (alike_tryScript (stackFree_getGlobal hE name).orderly).stackFree
  refine .of_leadsOrFails fun m hm => .readTop fun m' htop =>
    .bind (.of_stackFree htry hm) fun outcome => ?_
  cases outcome with
  | ok v =>
    exact .bind (.lift (.push v)) fun _ =>
      .bind (.lift (.of_stackFree (orderly_toHost v).stackFree hm)) fun r =>
        .bind (.lift (leads_leaveFrame hm htop _ _)) fun _ => .pure fun _ h => h
  | error e =>
    exact .bind (.lift (.of_stackFree (orderly_hold _).stackFree hm)) fun _ =>
      .bind (.lift (.setTop hm htop)) fun _ =>
        .bind (.lift (.of_stackFree (orderly_handOver _).stackFree hm)) fun _ =>
          .of_stackFree (stackFree_throwRaise hE e) hm

omit hE in
theorem leads_pushAll {m : Machine} (hm : m.HasFrame) (n : Nat) (vs : List HostValue) :
    LeadsOrFails m (m.On n) (vs.forM fun v => liftM (pushHost v) : Host Unit) fun _ =>
      m.On (n + vs.length) := by
  induction vs generalizing n with
  | nil => exact .pure fun _ h => h
  | cons v rest ih =>
    refine .bind (.lift (.pushHost v hm)) fun _ => ?_
    have hlength : n + (v :: rest).length = n + 1 + rest.length := by
      rw [List.length_cons]
      omega
    rw [hlength]
    exact ih (n + 1)

omit hE in
theorem leads_mapM {α β ε : Type} {m : Machine} {P : World → Prop} {f : α → Action β}
    (h : ∀ a, Leads P (f a) fun _ => P) (l : List α) :
    LeadsOrFails m P (l.mapM fun a => liftM (f a) : EStateM ε World (List β)) fun _ => P := by
  induction l with
  | nil =>
    rw [List.mapM_nil]
    exact .pure fun _ h => h
  | cons a rest ih =>
    rw [List.mapM_cons]
    exact .bind (.lift (h a)) fun _ => .bind ih fun _ => .pure fun _ h => h

/-- A protected call that host code makes. -/
theorem leads_tryProtectedCall {m : Machine} (hm : m.HasFrame) (nargs wanted : Int) :
    LeadsOrFails m (m.On (nargs.toNat + 1)) (tryScript (protectedCall E nargs wanted)) fun r w =>
      ∃ status k, r = .ok status ∧ m.On k w ∧ (status ≠ .ok → k = 1) := by
  intro w hw
  have hend := leads_protectedCall hE hm nargs wanted w hw
  unfold tryScript
  cases hr : protectedCall E nargs wanted w with
  | ok status w' =>
    rw [hr] at hend
    obtain ⟨k, hk⟩ := hend
    rw [bind_of_ok (lift_of_eq (attempt_of_ok hr))]
    exact ⟨status, k, rfl, hk⟩
  | error e w' =>
    rw [hr] at hend
    rw [bind_of_ok (lift_of_eq (attempt_of_error hr)), protectedCall_error hr]
    exact hend

/-- Calling a value and reading all its results. -/
theorem stackFree_callValue (function : HostValue) (arguments : List HostValue) :
    StackFree (callValue E function arguments) := by
  refine .of_leadsOrFails fun m hm => .readTop fun m' htop =>
    .bind (.lift (.pushHost function hm)) fun _ =>
      .bind (leads_pushAll hm 1 arguments) fun _ => ?_
  have hn : 1 + arguments.length = (arguments.length : Int).toNat + 1 := by omega
  rw [hn]
  refine .bind (leads_tryProtectedCall hE hm arguments.length (-1)) fun r => ?_
  cases r with
  | error e =>
    intro w h
    obtain ⟨status, k, hr, -⟩ := h
    cases hr
  | ok status =>
    cases status with
    | ok =>
      refine .of_some (fun w h => ?_) fun k => ?_
      · obtain ⟨status, k, -, hk, -⟩ := h
        exact ⟨k, hk⟩
      · have hread (v : Value) : Leads (m.On k) (toHost v) fun _ => m.On k :=
          .of_stackFree (orderly_toHost v).stackFree hm
        exact .bind (.lift (.of_stackFree orderly_readMachine.stackFree hm)) fun m₁ =>
          .bind (leads_mapM hread _) fun results =>
            .bind (.lift (leads_leaveFrame hm htop results _)) fun _ => .pure fun _ h => h
    | _ =>
      refine .bind (Q := fun _ => m.On 0) (.lift fun w h => ?_) fun v => ?_
      · obtain ⟨status, k, hr, hk, hone⟩ := h
        cases hr
        rw [hone nofun] at hk
        exact Leads.popValue hm w hk
      · exact .bind (.lift (.of_stackFree (orderly_hold _).stackFree hm)) fun _ =>
          .bind (.lift (.setTop hm htop)) fun _ =>
            .bind (.lift (.of_stackFree (orderly_handOver _).stackFree hm)) fun _ =>
              .of_stackFree (stackFree_throwRaise hE _) hm

/-! ## Finalizers -/

theorem stackFree_finalize (p : Pending) : StackFree (finalize E p) := by
  refine .bind (.lift (orderly_rawGetField _ _).stackFree) fun handler =>
    .bind (.lift (.modifyGet fun _ => ⟨rfl, rfl, rfl⟩)) fun u =>
      .bind (.lift (orderly_unhold _).stackFree) fun _ => ?_
  dsimp only
  split
  · refine .of_leadsOrFails fun m hm => .readTop fun m' htop =>
      .bind (.lift (.push _)) fun _ => .bind (.lift (.push _)) fun _ =>
        .bind (leads_protectedCall hE hm 1 0) fun status => .lift ?_
    exact .of_some (fun w h => h.imp fun _ hk => hk.1) fun k => .setTop hm htop
  · exact .lift (orderly_release _).stackFree

theorem stackFree_collectRounds (count fuel : Nat) : StackFree (collectRounds E count fuel) := by
  induction fuel generalizing count with
  | zero => exact .throw _
  | succ fuel ih =>
    refine .bind (.lift (.modifyGet fun _ => ⟨rfl, rfl, rfl⟩)) fun batch => ?_
    split
    · exact .pure _
    · have hall : Orderly .stackFree (batch.forM (finalize E)) :=
        alike_forM (fun p => (stackFree_finalize hE p).orderly) batch
      exact .bind (.lift (orderly_hold _).stackFree) fun _ => .bind hall.stackFree fun _ => ih _

/-- Running finalizers. -/
theorem stackFree_collect : StackFree (collect E) := stackFree_collectRounds hE 0 roundLimit

end

/-! ## Balance -/

/-- The slots, the calls under way and the limits of a world's machine after an action, whatever it
gives, are those before it. -/
def World.Keeps {α : Type} (w : World) (x : Action α) : Prop :=
  w.machine.SameStack (x w).2.machine

/-- The same of a program that may fail, whether it does or not. -/
def World.KeepsOrFails {α ε : Type} (w : World) (x : EStateM ε World α) : Prop :=
  w.machine.SameStack (worldAfter (x w)).machine

/-- An action adds exactly one value on top of the stack. -/
def World.PushesOne {α : Type} (w : World) (x : Action α) : Prop :=
  ∃ v, (w.machine.push v).SameStack (x w).2.machine

/-- Every operation on the stack of a machine is balanced. -/
structure World.Balanced (w : World) (E : Engine) : Prop where
  checkType : ∀ t v, w.Keeps (checkType t v)
  extract : ∀ (c : Conversion) v, w.Keeps (c.extract v)
  asType : ∀ t v, w.Keeps (asType t v)
  tableToArray : ∀ element v, w.Keeps (tableToArray element v)
  toHost : ∀ v, w.Keeps (toHost v)
  toHandle : ∀ v, w.Keeps (toHandle v)
  matchParameters : ∀ method arguments, w.Keeps (matchParameters method arguments)
  replay : ∀ (plan : Plan) arguments, w.Keeps (plan.replay arguments)
  resolve : ∀ candidates arguments, w.Keeps (resolve candidates arguments)
  pushHost : ∀ v, w.PushesOne (pushHost v)
  pushObject : ∀ o, w.PushesOne (pushObject o)
  pushType : ∀ cls, w.PushesOne (pushType cls)
  pushHandle : ∀ h, w.PushesOne (pushHandle h)
  callFunction : ∀ function method arguments, w.Keeps (callFunction E function method arguments)
  callTableMethod : ∀ table method arguments, w.Keeps (callTableMethod E table method arguments)
  callValue : ∀ function arguments, w.KeepsOrFails (callValue E function arguments)
  readGlobal : ∀ name, w.KeepsOrFails (readGlobal E name)
  exceptionOf : ∀ v, w.KeepsOrFails (exceptionOf E v)
  collect : w.KeepsOrFails (collect E)

theorem World.keeps_of_stackFree {α : Type} {w : World} {x : Action α} (hx : StackFree x)
    (hw : w.machine.HasFrame) : w.Keeps x :=
  (hx w.machine hw w (.refl _)).2

theorem World.keepsOrFails_of_stackFree {α ε : Type} {w : World} {x : EStateM ε World α}
    (hx : StackFree x) (hw : w.machine.HasFrame) : w.KeepsOrFails x :=
  (hx w.machine hw w (.refl _)).2

theorem World.pushesOne_of_leads {α : Type} {w : World} {x : Action α}
    (hx : Leads (w.machine.On 0) x fun _ => w.machine.On 1) : w.PushesOne x :=
  (hx w (.refl _)).exists_push

/-- In every world whose running frame lies in the stack, and however deep scripts nest: reading
values as host types, matching them with parameters and replaying plans leaves the stack as it was;
a push adds one value; and calls of functions and of fields of tables, reading a global, making an
exception of an error value and running finalizers end with the slots there were, whether the
scripts they run return or raise. -/
theorem stack_balanced (d : Nat) (w : World) (hw : w.machine.HasFrame) :
    w.Balanced (.ofDepth d) := by
  have hE := (Engine.ofDepth_framed d).run
  exact {
    checkType := fun t v => World.keeps_of_stackFree (orderly_checkType t v).stackFree hw
    extract := fun c v => World.keeps_of_stackFree (orderly_extract c v).stackFree hw
    asType := fun t v => World.keeps_of_stackFree (orderly_asType t v).stackFree hw
    tableToArray := fun e v => World.keeps_of_stackFree (orderly_tableToArray e v).stackFree hw
    toHost := fun v => World.keeps_of_stackFree (orderly_toHost v).stackFree hw
    toHandle := fun v => World.keeps_of_stackFree (orderly_toHandle v).stackFree hw
    matchParameters := fun m vs =>
      World.keeps_of_stackFree (orderly_matchParameters m vs).stackFree hw
    replay := fun p vs => World.keeps_of_stackFree (orderly_replay p vs).stackFree hw
    resolve := fun cs vs => World.keeps_of_stackFree (orderly_resolve cs vs).stackFree hw
    pushHost := fun v => World.pushesOne_of_leads (.pushHost v hw)
    pushObject := fun o => World.pushesOne_of_leads (.pushObject o hw)
    pushType := fun cls => World.pushesOne_of_leads (.pushType cls hw)
    pushHandle := fun h => World.pushesOne_of_leads (.pushHandle h hw)
    callFunction := fun h m vs =>
      World.keeps_of_stackFree (stackFree_callFunction hE h m vs) hw
    callTableMethod := fun h m vs =>
      World.keeps_of_stackFree (stackFree_callTableMethod hE h m vs) hw
    callValue := fun v vs => World.keepsOrFails_of_stackFree (stackFree_callValue hE v vs) hw
    readGlobal := fun name => World.keepsOrFails_of_stackFree (stackFree_readGlobal hE name) hw
    exceptionOf := fun v => World.keepsOrFails_of_stackFree (stackFree_exceptionOf hE v) hw
    collect := World.keepsOrFails_of_stackFree (stackFree_collect hE) hw }

/-- A machine with a text and a function in its one frame. -/
theorem stack_balanced_pushing :
    World.pushing.machine.HasFrame ∧ World.pushing.Balanced (.ofDepth 3) :=
  have hframe : World.pushing.machine.HasFrame := Nat.zero_le _
  ⟨hframe, stack_balanced 3 World.pushing hframe⟩

end ScriptBridge
