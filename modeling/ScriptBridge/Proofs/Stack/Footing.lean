import ScriptBridge.Proofs.Stack.Untouched
import ScriptBridge.Vm.Call

/-!
# The slots below a frame

A footing is what a running body cannot reach: the slots below its frame, the calls under way and
the limits. The operations on the stack keep a footing that ends where the frame begins.
-/

namespace ScriptBridge

/-! ## Arrays as lists -/

theorem toList_takeSlots (a : Array Value) (n : Nat) : (a.take n).toList = a.toList.take n := by
  rw [Array.take_eq_extract, Array.toList_extract, List.extract_eq_take_drop, Nat.sub_zero,
    List.drop_zero]

theorem toList_insertSlot (a : Array Value) (i : Nat) (v : Value) :
    (a.insertIdxIfInBounds i v).toList = a.toList.insertIdx i v := by
  obtain ⟨l⟩ := a
  rw [List.insertIdxIfInBounds_toArray]

theorem insertIdx_eq_append (l : List Value) (v : Value) {i : Nat} (hi : i ≤ l.length) :
    l.insertIdx i v = l.take i ++ v :: l.drop i := by
  induction l generalizing i with
  | nil =>
    obtain rfl : i = 0 := Nat.le_zero.mp hi
    rfl
  | cons a rest ih =>
    cases i with
    | zero => rfl
    | succ i =>
      rw [List.insertIdx_succ_cons, ih (Nat.le_of_succ_le_succ hi)]
      rfl

/-- An insertion above a prefix keeps it. -/
theorem prefix_insertIdx {below l : List Value} (h : below <+: l) {i : Nat}
    (hi : below.length ≤ i) (v : Value) : below <+: l.insertIdx i v := by
  by_cases hle : i ≤ l.length
  · rw [insertIdx_eq_append l v hle]
    exact (List.prefix_take_iff.mpr ⟨h, hi⟩).trans (List.prefix_append _ _)
  · rw [List.insertIdx_of_length_lt (Nat.lt_of_not_le hle)]
    exact h

/-! ## Changes of the slots only -/

namespace Machine

theorem resize_eq (m : Machine) (n : Nat) :
    (m.resize n).1 = { m with stack := (m.resize n).1.stack } := by
  unfold resize
  split <;> rfl

theorem remove_eq (m : Machine) (i : Int) :
    (m.remove i).1 = { m with stack := (m.remove i).1.stack } := by
  unfold remove
  split <;> rfl

theorem replace_eq (m : Machine) (i : Int) :
    (m.replace i).1 = { m with stack := (m.replace i).1.stack } := by
  unfold replace
  split <;> rfl

theorem insert_eq (m : Machine) (i : Int) :
    m.insert i = { m with stack := (m.insert i).stack } := by
  unfold insert
  split <;> rfl

theorem returnResults_eq (m : Machine) (pos n : Nat) (wanted : Int) :
    (m.returnResults pos n wanted).1 =
      { m with stack := (m.returnResults pos n wanted).1.stack } := by
  unfold returnResults
  dsimp only
  split
  · rw [resize_eq]
    rfl
  · rfl

end Machine

/-! ## Footings -/

/-- The slots at the bottom of the stack, the calls under way and the limits. -/
structure Footing where
  frames : List Frame
  limits : Limits
  below : List Value

namespace Footing

/-- A machine stands on a footing. -/
structure Holds (F : Footing) (m : Machine) : Prop where
  frames : m.frames = F.frames
  limits : m.limits = F.limits
  below : F.below <+: m.stack.toList

/-- The machine of a world stands on a footing. -/
def At (F : Footing) (w : World) : Prop := F.Holds w.machine

/-- The footing ends where the running frame begins. -/
def IsFrame (F : Footing) : Prop := (F.frames.head?.map (·.base)).getD 0 = F.below.length

/-- The calls under way are no more than the limit allows. -/
def IsShallow (F : Footing) : Prop := F.frames.length ≤ F.limits.maxCallDepth + 1

/-- The footing of a machine, with the slots below a position. -/
def ofMachine (m : Machine) (pos : Nat) : Footing := ⟨m.frames, m.limits, m.stack.toList.take pos⟩

variable {F : Footing} {m : Machine}

theorem ofMachine_holds (m : Machine) (pos : Nat) : (ofMachine m pos).Holds m :=
  ⟨rfl, rfl, List.take_prefix _ _⟩

theorem Holds.of_sameStack (h : F.Holds m) {m' : Machine} (hs : m.SameStack m') : F.Holds m' :=
  ⟨hs.frames.trans h.frames, hs.limits.trans h.limits, by rw [hs.stack]; exact h.below⟩

theorem Holds.length_le (h : F.Holds m) : F.below.length ≤ m.stack.size := by
  have := h.below.length_le
  rwa [Array.length_toList] at this

theorem Holds.base_eq (h : F.Holds m) (hF : F.IsFrame) : m.base = F.below.length := by
  unfold Machine.base
  rw [h.frames]
  exact hF

theorem Holds.hasFrame (h : F.Holds m) (hF : F.IsFrame) : m.HasFrame := by
  unfold Machine.HasFrame
  rw [h.base_eq hF]
  exact h.length_le

/-- A footing is kept by any change of the slots that keeps the lowest ones. -/
theorem Holds.of_below (h : F.Holds m) (stack : Array Value) (hb : F.below <+: stack.toList) :
    F.Holds { m with stack } :=
  ⟨h.frames, h.limits, hb⟩

/-! ## Positions -/

/-- A slot of the frame lies above the footing. -/
theorem Holds.slot?_ge (h : F.Holds m) (hF : F.IsFrame) {i : Int} {p : Nat}
    (hp : m.slot? i = some p) : F.below.length ≤ p ∧ p < m.stack.size := by
  have hbase := h.base_eq hF
  have hlen := h.length_le
  unfold Machine.slot? at hp
  split at hp
  · dsimp only at hp
    split at hp
    · cases hp
      omega
    · cases hp
  · split at hp
    · dsimp only at hp
      split at hp
      · rename_i hback
        rw [Bool.and_eq_true, decide_eq_true_iff, decide_eq_true_iff] at hback
        cases hp
        omega
      · cases hp
    · cases hp

/-! ## Changes of the stack -/

theorem Holds.push (h : F.Holds m) (v : Value) : F.Holds (m.push v) :=
  h.of_below _ (by rw [Array.toList_push]; exact h.below.trans (List.prefix_append _ _))

theorem Holds.truncate (h : F.Holds m) {n : Nat} (hn : F.below.length ≤ n) :
    F.Holds (m.truncate n).1 :=
  h.of_below _ (by rw [toList_takeSlots]; exact List.prefix_take_iff.mpr ⟨h.below, hn⟩)

theorem Holds.resize (h : F.Holds m) {n : Nat} (hn : F.below.length ≤ n) :
    F.Holds (m.resize n).1 := by
  unfold Machine.resize
  split
  · exact h.truncate hn
  · refine h.of_below _ ?_
    rw [Array.toList_append]
    exact h.below.trans (List.prefix_append _ _)

theorem Holds.setTop (h : F.Holds m) (hF : F.IsFrame) (n : Int) : F.Holds (m.setTop n).1 := by
  have hbase := h.base_eq hF
  exact h.resize (by omega)

theorem Holds.pop (h : F.Holds m) (hF : F.IsFrame) (n : Int) : F.Holds (m.pop n).1 :=
  h.setTop hF _

theorem Holds.remove (h : F.Holds m) (hF : F.IsFrame) (i : Int) : F.Holds (m.remove i).1 := by
  unfold Machine.remove
  cases hp : m.slot? i with
  | none => exact h
  | some p =>
    have hlt := h.slot?_ge hF hp
    refine h.of_below _ ?_
    rw [Array.toList_eraseIdxIfInBounds]
    obtain ⟨rest, hr⟩ := h.below
    rw [← hr, List.eraseIdx_append_of_length_le hlt.1]
    exact List.prefix_append _ _

/-- Without the top value the footing is still there, when a slot of the frame is. -/
theorem Holds.below_pop (h : F.Holds m) (hlt : F.below.length < m.stack.size) :
    F.below <+: m.stack.toList.dropLast := by
  rw [List.dropLast_eq_take]
  refine List.prefix_take_iff.mpr ⟨h.below, ?_⟩
  rw [Array.length_toList]
  omega

theorem Holds.insert (h : F.Holds m) (hF : F.IsFrame) (i : Int) : F.Holds (m.insert i) := by
  unfold Machine.insert
  cases hp : m.slot? i with
  | none => exact h
  | some p =>
    cases m.stack.back? with
    | none => exact h
    | some v =>
      have hlt := h.slot?_ge hF hp
      have hb := h.below_pop (by omega)
      refine h.of_below _ ?_
      rw [toList_insertSlot, Array.toList_pop]
      exact prefix_insertIdx hb hlt.1 v

theorem Holds.replace (h : F.Holds m) (hF : F.IsFrame) (i : Int) : F.Holds (m.replace i).1 := by
  unfold Machine.replace
  cases hp : m.slot? i with
  | none => exact h
  | some p =>
    cases m.stack.back? with
    | none => exact h
    | some v =>
      have hlt := h.slot?_ge hF hp
      have hb := h.below_pop (by omega)
      refine h.of_below _ ?_
      rw [Array.toList_setIfInBounds, Array.toList_pop]
      obtain ⟨rest, hr⟩ := hb
      rw [← hr, List.set_append_right _ _ hlt.1]
      exact List.prefix_append _ _

theorem Holds.popValue (h : F.Holds m) (hF : F.IsFrame) : F.Holds m.popValue.2 := by
  have hbase := h.base_eq hF
  unfold Machine.popValue
  split
  · rename_i hlt
    refine h.of_below _ ?_
    rw [Array.toList_pop]
    exact h.below_pop (by omega)
  · exact h

end Footing

/-! ## Cutting the stack -/

/-- Cutting the stack leaves the slots below a position. -/
theorem cut_sameStack (w : World) (pos : Nat) (outliving : List Ref) :
    (w.machine.truncate pos).1.SameStack (cut pos outliving w).2.machine := by
  have h : (cut pos outliving w).2.machine = (w.machine.truncate pos).1 := discard_machine _ _ _
  rw [h]
  exact .refl _

/-! ## Programs inside a frame -/

/-- Inside every frame two programs do the same, and they keep what is below it. -/
def Framed {m : Type → Type} [Monad m] [MonadStateOf World m] [Program m] {α : Type}
    (x y : m α) : Prop :=
  ∀ F : Footing, F.IsFrame → F.IsShallow → Agree F.At x y

end ScriptBridge
