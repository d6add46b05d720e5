import Mathlib.Data.List.Sort
import ScriptBridge.Proofs.Dispatch.Consumption
import ScriptBridge.Proofs.Dispatch.Reentrance

/-!
# Which values a call gives back

A call pushes its result and then the final values of the parameters in the plan's list of outputs,
in declaration order. `Plan.GivesBack` says which parameters are in that list: all outputs, and
references that were converted from an argument of their own. A reference that was filled by its
default value, or by a new array, is not among them, so that the number of results is fixed by the
signature for methods without references only.
-/

namespace ScriptBridge

theorem eq_of_getElem?_append {α : Type} {l : List α} {a b : α} {i : Nat} (hi : l.length ≤ i)
    (h : (l ++ [a])[i]? = some b) : i = l.length ∧ b = a := by
  rw [List.getElem?_append_right hi, List.getElem?_singleton] at h
  split at h
  · rename_i hzero
    exact ⟨Nat.le_antisymm (Nat.le_of_sub_eq_zero hzero) hi, (Option.some.inj h).symm⟩
  · cases h

/-- The parameters whose final values are results: outputs, and references with an argument. -/
structure GivesBack (slots : List ArgumentSlot) (outSlots : List Nat) (params : List Param) :
    Prop where
  ordered : outSlots.Pairwise (· < ·)
  only : ∀ i ∈ outSlots, ∃ p, params[i]? = some p ∧
    (p.mode = .output ∨ p.mode = .reference ∧ ∃ s ∈ slots, s.param = i ∧ ∃ c, s.source = .single c)
  outputs : ∀ (i : Nat) (p : Param), params[i]? = some p → p.mode = .output → i ∈ outSlots
  references : ∀ (i : Nat) (p : Param), params[i]? = some p → p.mode = .reference →
    p.variadic = false → (∃ s ∈ slots, s.param = i) → i ∈ outSlots

namespace GivesBack

variable {slots : List ArgumentSlot} {outSlots : List Nat} {params : List Param}

theorem nil : GivesBack [] [] [] where
  ordered := .nil
  only _ h := absurd h List.not_mem_nil
  outputs _ _ h := nomatch h
  references _ _ h := nomatch h

theorem out_lt (h : GivesBack slots outSlots params) {i : Nat} (hi : i ∈ outSlots) :
    i < params.length := by
  obtain ⟨p, hp, -⟩ := h.only i hi
  exact (List.getElem?_eq_some_iff.mp hp).1

/-- One more parameter, with at most one slot, which is in the list of outputs or not. -/
theorem append (h : GivesBack slots outSlots params) (p : Param) (slot : Option ArgumentSlot)
    (out : Option Nat)
    (hslots : ∀ s ∈ slots, s.param < params.length) (hslot : ∀ s ∈ slot, s.param = params.length)
    (hout : ∀ i ∈ out, i = params.length ∧ (p.mode = .output ∨
      p.mode = .reference ∧ ∃ s ∈ slot, ∃ c, s.source = .single c))
    (houtput : p.mode = .output → out = some params.length)
    (hreference : p.mode = .reference → p.variadic = false → slot.isSome →
      out = some params.length) :
    GivesBack (slots ++ slot.toList) (outSlots ++ out.toList) (params ++ [p]) where
  ordered := by
    refine List.pairwise_append.mpr ⟨h.ordered, ?_, fun i hi j hj => ?_⟩
    · cases out with
      | none => exact .nil
      | some i => exact List.pairwise_singleton _ _
    · rw [(hout j (Option.mem_toList.mp hj)).1]
      exact h.out_lt hi
  only i hi := by
    obtain hi | hi := List.mem_append.mp hi
    · obtain ⟨q, hq, hmode⟩ := h.only i hi
      refine ⟨q, List.getElem?_append_left (h.out_lt hi) ▸ hq, hmode.imp_right ?_⟩
      rintro ⟨hr, s, hs, hc⟩
      exact ⟨hr, s, List.mem_append_left _ hs, hc⟩
    · obtain ⟨rfl, hmode⟩ := hout i (Option.mem_toList.mp hi)
      refine ⟨p, List.getElem?_concat_length, hmode.imp_right ?_⟩
      rintro ⟨hr, s, hs, hc⟩
      exact ⟨hr, s, List.mem_append_right _ (Option.mem_toList.mpr hs), hslot s hs, hc⟩
  outputs i q hq hmode := by
    obtain hi | hi := Nat.lt_or_ge i params.length
    · rw [List.getElem?_append_left hi] at hq
      exact List.mem_append_left _ (h.outputs i q hq hmode)
    · obtain ⟨rfl, rfl⟩ := eq_of_getElem?_append hi hq
      exact List.mem_append_right _ (houtput hmode ▸ List.mem_cons_self)
  references i q hq hmode hvariadic hs := by
    obtain ⟨s, hs, rfl⟩ := hs
    obtain hs | hs := List.mem_append.mp hs
    · rw [List.getElem?_append_left (hslots s hs)] at hq
      exact List.mem_append_left _ (h.references _ q hq hmode hvariadic ⟨s, hs, rfl⟩)
    · have hs := Option.mem_toList.mp hs
      have hi := hslot s hs
      obtain ⟨-, rfl⟩ := eq_of_getElem?_append (Nat.le_of_eq hi.symm) hq
      rw [hi]
      exact List.mem_append_right _
        (hreference hmode hvariadic (Option.isSome_of_mem hs) ▸ List.mem_cons_self)

end GivesBack

/-- The filling gives back the values of the parameters so far. -/
def Filling.GivesBack (f : Filling) (params : List Param) : Prop :=
  ScriptBridge.GivesBack f.slots f.outSlots params

theorem Filling.Adds.givesBack {f g : Filling} {params : List Param} {p : Param}
    (h : f.Adds p g) (hcovers : f.Covers params) (hf : f.GivesBack params) :
    g.GivesBack (params ++ [p]) := by
  have hslots (s : ArgumentSlot) (hs : s ∈ f.slots) : s.param < params.length := hcovers.slot_lt hs
  have hlength : f.template.length = params.length := hcovers.length
  cases h with
  | output hmode =>
    have h := hf.append p none (some f.template.length) hslots
      (fun _ hs => nomatch hs) (fun i hi => ?_) (fun _ => congrArg some hlength)
      (fun hr => ?_)
    · rw [Option.toList_none, List.append_nil] at h
      exact h
    · cases hi
      exact ⟨hlength, .inl hmode⟩
    · rw [hmode] at hr
      cases hr
  | @fixed v hmode hd =>
    have h := hf.append p none none hslots
      (fun _ hs => nomatch hs) (fun _ hi => nomatch hi) (fun ho => absurd ho hmode)
      (fun _ _ hs => nomatch hs)
    rw [Option.toList_none, Option.toList_none, List.append_nil, List.append_nil] at h
    exact h
  | single hmode c =>
    have hslot (s : ArgumentSlot)
        (hs : s ∈ some (⟨f.template.length, f.cursor, .single c⟩ : ArgumentSlot)) :
        s.param = params.length := by
      cases hs
      exact hlength
    unfold Filling.single
    dsimp only
    split
    · rename_i hr
      have hr : p.mode = .reference := beq_iff_eq.mp hr
      refine hf.append p _ (some f.template.length) hslots hslot (fun i hi => ?_)
        (fun _ => congrArg some hlength) (fun _ _ _ => congrArg some hlength)
      cases hi
      exact ⟨hlength, .inr ⟨hr, _, rfl, c, rfl⟩⟩
    · rename_i hr
      have h := hf.append p _ none hslots hslot (fun _ hi => nomatch hi)
        (fun ho => absurd ho hmode) (fun he => absurd (beq_iff_eq.mpr he) hr)
      rw [Option.toList_none, List.append_nil] at h
      exact h
  | collected hmode hvariadic source =>
    have h := hf.append p (some ⟨f.template.length, f.cursor, source⟩) none
      hslots (fun s hs => ?_) (fun _ hi => nomatch hi) (fun ho => absurd ho hmode)
      (fun _ hv => ?_)
    · rw [Option.toList_none, List.append_nil] at h
      exact h
    · cases hs
      exact hlength
    · rw [hvariadic] at hv
      cases hv

theorem Filling.AddsAll.givesBack {f g : Filling} {params rest : List Param}
    (h : f.AddsAll rest g) (hcovers : f.Covers params) (hf : f.GivesBack params) :
    g.GivesBack (params ++ rest) := by
  induction h generalizing params with
  | nil f =>
    rw [List.append_nil]
    exact hf
  | cons first _ ih =>
    rw [List.append_cons]
    exact ih (first.covers hcovers) (first.givesBack hcovers hf)

/-! ## Whole plans -/

/-- Every plan that matching the parameters of a method gives lists its outputs, and the references
that have an argument of their own, in declaration order. -/
theorem matchParameters_givesBack {m : Method} {arguments : List Value} {w : World} {plan : Plan}
    (h : (matchParameters m arguments w).1 = some plan) :
    GivesBack plan.slots plan.outSlots m.params := by
  obtain ⟨f, hadds, -, rfl⟩ := matchParameters_filling h
  have hcovers : Filling.Covers {} [] := .nil
  have hnil : Filling.GivesBack {} [] := .nil
  exact hadds.givesBack hcovers hnil

/-- The outputs of a signature. -/
def Method.outputs (m : Method) : List Nat :=
  (List.range m.params.length).filter fun i => m.params[i]?.any (·.mode == .output)

/-- Without references the values given back are those of the outputs, whatever the arguments. -/
theorem matchParameters_outputs {m : Method} {arguments : List Value} {w : World} {plan : Plan}
    (hreferences : ∀ p ∈ m.params, p.mode ≠ .reference)
    (h : (matchParameters m arguments w).1 = some plan) : plan.outSlots = m.outputs := by
  have hback := matchParameters_givesBack h
  refine List.Pairwise.eq_of_mem_iff hback.ordered (List.pairwise_lt_range.filter _) fun i => ?_
  constructor
  · intro hi
    obtain ⟨p, hp, hmode⟩ := hback.only i hi
    have hmode : p.mode = .output :=
      hmode.resolve_right fun hr => hreferences p (List.mem_of_getElem? hp) hr.1
    refine List.mem_filter.mpr ⟨List.mem_range.mpr (hback.out_lt hi), ?_⟩
    rw [hp]
    exact beq_iff_eq.mpr hmode
  · intro hi
    obtain ⟨-, hi⟩ := List.mem_filter.mp hi
    obtain ⟨p, hp, hmode⟩ := (Option.any_eq_true _ _).mp hi
    exact hback.outputs i p hp (beq_iff_eq.mp hmode)

/-- A call of a method without references pushes as many results as its signature says. -/
theorem pushResults_outputs {m : Method} {arguments : List Value} {w : World} {plan : Plan}
    (hreferences : ∀ p ∈ m.params, p.mode ≠ .reference)
    (h : (matchParameters m arguments w).1 = some plan) (ret : HostValue)
    (values : List HostValue) (w' : World) :
    (pushResults plan ret values w').1 =
      (if m.ret = .void then 0 else 1) + m.outputs.length := by
  rw [pushResults_count, matchParameters_outputs hreferences h]
  obtain ⟨f, -, -, rfl⟩ := matchParameters_filling h
  simp only [beq_iff_eq]

/-- A method with a reference that may be left out. -/
def countMethod : Method where
  name := "count"
  declaringType := "Texts"
  params := [⟨.bool, .reference, some (.bool false), false⟩, ⟨.int .i32, .output, none, false⟩]
  ret := .void
  body := some (.statements [])

/-- With its argument the reference is given back, and without it is not. -/
example :
    (matchParameters countMethod [.boolean true] default).1.map (·.outSlots) = some [0, 1] ∧
      (matchParameters countMethod [] default).1.map (·.outSlots) = some [1] :=
  ⟨rfl, rfl⟩

end ScriptBridge
