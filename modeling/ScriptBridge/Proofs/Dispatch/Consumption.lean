import ScriptBridge.Bridge.Matching
import ScriptBridge.Proofs.Program

/-!
# No argument is dropped or used twice

1. `Filling.Adds`: the ways in which one parameter joins a plan under construction, whatever the
   conversions choose.
2. `Covers`: after some parameters the slots have used up the arguments before the cursor, each of
   them once, and each parameter is filled in one way.
3. `extractSlots_congr`: running slots reads the arguments at their positions only.

Together they give `matchParameters_consumes`, for all methods, arguments and worlds.
-/

namespace ScriptBridge

/-! ## Which arguments a slot reads -/

/-- How many arguments a source reads. -/
def ArgumentSource.count : ArgumentSource → Nat
  | .single _ => 1
  | .run _ cs => cs.length
  | .emptyArray _ => 0

/-- The positions of the arguments that a slot reads. -/
def ArgumentSlot.positions (s : ArgumentSlot) : List Nat := List.range' s.offset s.source.count

/-- The slots that fill the parameter with an index. -/
def slotsFor (slots : List ArgumentSlot) (i : Nat) : List ArgumentSlot :=
  slots.filter (·.param == i)

/-- The ways to fill a parameter. -/
inductive FillingWay where
  | slot
  | default
  | placeholder
deriving DecidableEq, Repr

/-- A parameter is filled in a way, by the slots it has and its value in the template. -/
def Param.Filled (p : Param) (slots : List ArgumentSlot) (value : Option HostValue) :
    FillingWay → Prop
  | .slot => p.mode ≠ .output ∧ ∃ s, slots = [s]
  | .default => p.mode ≠ .output ∧ slots = [] ∧ p.default.isSome ∧ value = p.default
  | .placeholder => p.mode = .output ∧ slots = [] ∧ value = some p.type.defaultValue

theorem Param.Filled.unique {p : Param} {slots : List ArgumentSlot} {value : Option HostValue}
    {way way' : FillingWay} (h : p.Filled slots value way) (h' : p.Filled slots value way') :
    way = way' := by
  cases way <;> cases way'
  case slot.slot | default.default | placeholder.placeholder => rfl
  case slot.default =>
    obtain ⟨-, s, hs⟩ := h
    exact absurd (hs.symm.trans h'.2.1) (List.cons_ne_nil _ _)
  case default.slot =>
    obtain ⟨-, s, hs⟩ := h'
    exact absurd (hs.symm.trans h.2.1) (List.cons_ne_nil _ _)
  case slot.placeholder | default.placeholder => exact absurd h'.1 h.1
  case placeholder.slot | placeholder.default => exact absurd h.1 h'.1

/-! ## One more parameter -/

/-- The source of a variadic parameter, once it is known whether the first argument converts as a
whole. -/
def sourceOf (element : HostType) (rest : List Value) (whole : Bool) :
    Action (Option (ArgumentSource × Nat)) := do
  if whole then return some (.single (.arrayTable element), 1)
  match ← matchRun element rest with
  | [] => return none
  | cs => return some (.run element cs, cs.length)

theorem matchVariadic_nil (element : HostType) :
    matchVariadic element [] = sourceOf element [] false := rfl

theorem matchVariadic_cons (element : HostType) (v : Value) (rest : List Value) :
    matchVariadic element (v :: rest) =
      (itemsConvert (tableToArray element) v >>= sourceOf element (v :: rest)) := rfl

/-- What a parameter gets, once it is known how the next argument matches its type. -/
def fillMatched (f : Filling) (p : Param) (v : Value) (rest : List Value) :
    Option Conversion → Action (Option Filling)
  | some c => return some (f.single p c)
  | none => do
    let variadic ←
      match p.variadic, p.element? with
      | true, some e => matchVariadic e (v :: rest)
      | _, _ => pure none
    match variadic with
    | some (source, count) => return some (f.slot p source count)
    | none => return fillDefault f p

theorem fillParam_nil {arguments : List Value} {f : Filling} {p : Param} (hmode : p.mode ≠ .output)
    (hrest : arguments.drop f.cursor = []) : fillParam arguments f p = pure (fillMissing f p) := by
  unfold fillParam
  rw [if_neg fun h => hmode (beq_iff_eq.mp h), hrest]

theorem fillParam_cons {arguments : List Value} {f : Filling} {p : Param} {v : Value}
    {rest : List Value} (hmode : p.mode ≠ .output) (hrest : arguments.drop f.cursor = v :: rest) :
    fillParam arguments f p = (checkType p.type v >>= fillMatched f p v rest) := by
  unfold fillParam
  rw [if_neg fun h => hmode (beq_iff_eq.mp h), hrest]
  rfl

theorem fillParam_output {arguments : List Value} {f : Filling} {p : Param}
    (hmode : p.mode = .output) : fillParam arguments f p = pure (some (f.output p)) := by
  unfold fillParam
  rw [if_pos (beq_iff_eq.mpr hmode)]

/-- How a parameter joins a filling. -/
inductive Filling.Adds (f : Filling) (p : Param) : Filling → Prop where
  | output (mode : p.mode = .output) : f.Adds p (f.output p)
  | fixed {v : HostValue} (mode : p.mode ≠ .output) (default : p.default = some v) :
      f.Adds p (f.fixed v)
  | single (mode : p.mode ≠ .output) (c : Conversion) : f.Adds p (f.single p c)
  | collected (mode : p.mode ≠ .output) (variadic : p.variadic = true) (source : ArgumentSource) :
      f.Adds p (f.slot p source source.count)

/-- How parameters join a filling one after the other. -/
inductive Filling.AddsAll : Filling → List Param → Filling → Prop where
  | nil (f : Filling) : f.AddsAll [] f
  | cons {f g g' : Filling} {p : Param} {rest : List Param} (first : f.Adds p g)
      (others : g.AddsAll rest g') : f.AddsAll (p :: rest) g'

/-- Whatever the world, the answer has the property. -/
def Answers {α : Type} (x : Action α) (P : α → Prop) : Prop := ∀ w, P (x w).1

theorem Answers.pure {α : Type} {P : α → Prop} {a : α} (h : P a) :
    Answers (pure a : Action α) P := fun _ => h

theorem Answers.bind {α β : Type} {x : Action α} {f : α → Action β} {P : α → Prop}
    {Q : β → Prop} (hx : Answers x P) (hf : ∀ a, P a → Answers (f a) Q) : Answers (x >>= f) Q :=
  fun w => hf _ (hx w) (x w).2

theorem Answers.true {α : Type} (x : Action α) : Answers x fun _ => True := fun _ => trivial

theorem answers_sourceOf (e : HostType) (rest : List Value) (whole : Bool) :
    Answers (sourceOf e rest whole) fun r => ∀ s n, r = some (s, n) → n = s.count := by
  cases whole with
  | true =>
    refine .pure fun s n h => ?_
    cases h
    rfl
  | false =>
    refine (Answers.true (matchRun e rest)).bind fun cs _ => ?_
    cases cs with
    | nil => exact .pure fun _ _ h => nomatch h
    | cons c cs =>
      refine .pure fun s n h => ?_
      cases h
      rfl

theorem answers_matchVariadic (e : HostType) (rest : List Value) :
    Answers (matchVariadic e rest) fun r => ∀ s n, r = some (s, n) → n = s.count := by
  cases rest with
  | nil =>
    rw [matchVariadic_nil]
    exact answers_sourceOf e [] false
  | cons v rest =>
    rw [matchVariadic_cons]
    exact (Answers.true _).bind fun whole _ => answers_sourceOf e (v :: rest) whole

theorem fillDefault_adds {f g : Filling} {p : Param} (hmode : p.mode ≠ .output)
    (h : fillDefault f p = some g) : f.Adds p g := by
  obtain ⟨v, hv, rfl⟩ := Option.map_eq_some_iff.mp h
  exact .fixed hmode hv

theorem fillMissing_adds {f g : Filling} {p : Param} (hmode : p.mode ≠ .output)
    (h : fillMissing f p = some g) : f.Adds p g := by
  unfold fillMissing at h
  cases hd : p.default with
  | some v =>
    rw [hd] at h
    cases h
    exact .fixed hmode hd
  | none =>
    rw [hd] at h
    dsimp only at h
    split at h
    · rename_i hvariadic
      obtain ⟨e, -, rfl⟩ := Option.map_eq_some_iff.mp h
      exact .collected hmode hvariadic (.emptyArray e)
    · cases h

theorem answers_fillMatched {f : Filling} {p : Param} (hmode : p.mode ≠ .output) (v : Value)
    (rest : List Value) (c : Option Conversion) :
    Answers (fillMatched f p v rest c) fun r => ∀ g, r = some g → f.Adds p g := by
  cases c with
  | some c =>
    refine .pure fun g h => ?_
    cases h
    exact .single hmode c
  | none =>
    unfold fillMatched
    dsimp only
    split
    · rename_i hvariadic he
      refine (answers_matchVariadic _ (v :: rest)).bind fun r hr => ?_
      cases r with
      | none => exact .pure fun g h => fillDefault_adds hmode h
      | some found =>
        refine .pure fun g h => ?_
        cases h
        rw [hr _ _ rfl]
        exact .collected hmode hvariadic _
    · exact .pure fun g h => fillDefault_adds hmode h

theorem answers_fillParam (arguments : List Value) (f : Filling) (p : Param) :
    Answers (fillParam arguments f p) fun r => ∀ g, r = some g → f.Adds p g := by
  by_cases hmode : p.mode = .output
  · rw [fillParam_output hmode]
    refine .pure fun g h => ?_
    cases h
    exact .output hmode
  · cases hrest : arguments.drop f.cursor with
    | nil =>
      rw [fillParam_nil hmode hrest]
      exact .pure fun g h => fillMissing_adds hmode h
    | cons v rest =>
      rw [fillParam_cons hmode hrest]
      exact (Answers.true _).bind fun c _ => answers_fillMatched hmode v rest c

theorem answers_fillParams (arguments : List Value) (params : List Param) (f : Filling) :
    Answers (fillParams arguments params f) fun r => ∀ g, r = some g → f.AddsAll params g := by
  induction params generalizing f with
  | nil =>
    refine .pure fun g h => ?_
    cases h
    exact .nil f
  | cons p rest ih =>
    refine (answers_fillParam arguments f p).bind fun r hr => ?_
    cases r with
    | none => exact .pure fun _ h => nomatch h
    | some f₁ => exact fun w g h => .cons (hr f₁ rfl) (ih f₁ w g h)

/-- A plan is a filling that all parameters joined, with its cursor behind the last argument. -/
theorem matchParameters_filling {m : Method} {arguments : List Value} {w : World} {plan : Plan}
    (h : (matchParameters m arguments w).1 = some plan) :
    ∃ f : Filling, Filling.AddsAll {} m.params f ∧ f.cursor = arguments.length ∧
      plan = {
        method := m, template := f.template, slots := f.slots, outSlots := f.outSlots
        returnsVoid := m.ret == .void, argumentCount := arguments.length } := by
  have hfill := answers_fillParams arguments m.params {} w
  unfold matchParameters at h
  cases hr : fillParams arguments m.params {} w with | mk r w₁
  rw [bind_of_eq hr] at h
  rw [hr] at hfill
  cases r with
  | none => cases h
  | some f =>
    dsimp only at h
    split at h
    · cases h
    · rename_i hcursor
      cases h
      exact ⟨f, hfill f rfl, by simpa using hcursor, rfl⟩

/-! ## Arguments used up and parameters filled -/

/-- The slots use up the arguments before the cursor, and each parameter is filled in a way. -/
structure Covers (template : List HostValue) (slots : List ArgumentSlot) (cursor : Nat)
    (params : List Param) : Prop where
  length : template.length = params.length
  positions : slots.flatMap ArgumentSlot.positions = List.range cursor
  ordered : slots.Pairwise fun s s' => s.param < s'.param
  inputs : ∀ s ∈ slots, ∃ p, params[s.param]? = some p ∧ p.mode ≠ .output
  filled : ∀ (i : Nat) (p : Param), params[i]? = some p →
    ∃ way, p.Filled (slotsFor slots i) template[i]? way

namespace Covers

variable {template : List HostValue} {slots : List ArgumentSlot} {cursor : Nat}
variable {params : List Param}

theorem nil : Covers [] [] 0 [] where
  length := rfl
  positions := rfl
  ordered := .nil
  inputs _ h := absurd h List.not_mem_nil
  filled _ _ h := nomatch h

theorem slot_lt (h : Covers template slots cursor params) {s : ArgumentSlot} (hs : s ∈ slots) :
    s.param < params.length := by
  obtain ⟨p, hp, -⟩ := h.inputs s hs
  exact (List.getElem?_eq_some_iff.mp hp).1

/-- One more parameter, with a value in the template and at most one slot. -/
theorem append (h : Covers template slots cursor params) (p : Param) (v : HostValue)
    (slot : Option ArgumentSlot) (count : Nat)
    (hslot : ∀ s ∈ slot, s.param = template.length ∧ p.mode ≠ .output)
    (hpositions : slot.toList.flatMap ArgumentSlot.positions = List.range' cursor count)
    (hfilled : ∃ way, p.Filled slot.toList (some v) way) :
    Covers (template ++ [v]) (slots ++ slot.toList) (cursor + count) (params ++ [p]) where
  length := by rw [List.length_append, List.length_append, h.length]; rfl
  positions := by
    rw [List.flatMap_append, h.positions, hpositions, List.range_eq_range', List.range_eq_range',
      ← List.range'_append_1, Nat.zero_add]
  ordered := by
    refine List.pairwise_append.mpr ⟨h.ordered, ?_, fun s hs s' hs' => ?_⟩
    · cases slot with
      | none => exact .nil
      | some s => exact List.pairwise_singleton _ _
    · rw [(hslot s' (Option.mem_toList.mp hs')).1, h.length]
      exact h.slot_lt hs
  inputs s hs := by
    obtain hs | hs := List.mem_append.mp hs
    · obtain ⟨q, hq, hmode⟩ := h.inputs s hs
      exact ⟨q, List.getElem?_append_left (h.slot_lt hs) ▸ hq, hmode⟩
    · obtain ⟨hparam, hmode⟩ := hslot s (Option.mem_toList.mp hs)
      refine ⟨p, ?_, hmode⟩
      rw [hparam, h.length, List.getElem?_append_right (Nat.le_refl _), Nat.sub_self]
      rfl
  filled i q hq := by
    have hlt : i < params.length + 1 := by
      have hlt := (List.getElem?_eq_some_iff.mp hq).1
      rwa [List.length_append] at hlt
    obtain hi | rfl := Nat.lt_succ_iff_lt_or_eq.mp hlt
    · -- The parameters before keep their slots and their values.
      rw [List.getElem?_append_left hi] at hq
      have hother : slotsFor slot.toList i = [] := by
        refine List.filter_eq_nil_iff.mpr fun s hs he => ?_
        rw [← beq_iff_eq.mp he, (hslot s (Option.mem_toList.mp hs)).1, h.length] at hi
        exact Nat.lt_irrefl _ hi
      rw [List.getElem?_append_left (h.length ▸ hi)]
      unfold slotsFor at hother ⊢
      rw [List.filter_append, hother, List.append_nil]
      exact h.filled i q hq
    · rw [List.getElem?_append_right (Nat.le_refl _), Nat.sub_self] at hq
      cases hq
      have hnone : slotsFor slots params.length = [] := by
        refine List.filter_eq_nil_iff.mpr fun s hs he => ?_
        exact Nat.lt_irrefl _ (beq_iff_eq.mp he ▸ h.slot_lt hs)
      have hall : slotsFor slot.toList params.length = slot.toList := by
        refine List.filter_eq_self.mpr fun s hs => ?_
        rw [(hslot s (Option.mem_toList.mp hs)).1, h.length]
        exact beq_self_eq_true _
      rw [← h.length, List.getElem?_append_right (Nat.le_refl _), Nat.sub_self, h.length]
      unfold slotsFor at hnone hall ⊢
      rw [List.filter_append, hnone, hall]
      exact hfilled

end Covers

/-- The filling covers the parameters. -/
def Filling.Covers (f : Filling) (params : List Param) : Prop :=
  ScriptBridge.Covers f.template f.slots f.cursor params

theorem Filling.Adds.covers {f g : Filling} {params : List Param} {p : Param}
    (h : f.Adds p g) (hf : f.Covers params) : g.Covers (params ++ [p]) := by
  have hslot (hmode : p.mode ≠ .output) (source : ArgumentSource) :
      (f.slot p source source.count).Covers (params ++ [p]) := by
    refine hf.append p _ (some ⟨f.template.length, f.cursor, source⟩) _ (fun s hs => ?_) ?_ ?_
    · cases hs
      exact ⟨rfl, hmode⟩
    · exact List.append_nil _
    · exact ⟨.slot, hmode, _, rfl⟩
  cases h with
  | output hmode =>
    have h := hf.append p p.type.defaultValue none 0
      (fun _ hs => nomatch hs) rfl ⟨.placeholder, hmode, rfl, rfl⟩
    rw [Option.toList_none, List.append_nil] at h
    exact h
  | @fixed v hmode hd =>
    have h := hf.append p v none 0
      (fun _ hs => nomatch hs) rfl
      ⟨.default, hmode, rfl, Option.isSome_of_eq_some hd, hd.symm⟩
    rw [Option.toList_none, List.append_nil] at h
    exact h
  | single hmode c =>
    unfold Filling.single
    dsimp only
    split
    · exact hslot hmode (.single c)
    · exact hslot hmode (.single c)
  | collected hmode _ source => exact hslot hmode source

theorem Filling.AddsAll.covers {f g : Filling} {params rest : List Param}
    (h : f.AddsAll rest g) (hf : f.Covers params) : g.Covers (params ++ rest) := by
  induction h generalizing params with
  | nil f =>
    rw [List.append_nil]
    exact hf
  | cons first _ ih =>
    rw [List.append_cons]
    exact ih (first.covers hf)

/-! ## Replaying reads nothing else -/

theorem extractRun_congr (cs : List Conversion) {arguments others : List Value} (position : Nat)
    (done : List HostValue)
    (h : ∀ k < cs.length, others[k]?.getD .nil = arguments[k]?.getD .nil) :
    extractRun cs others position done = extractRun cs arguments position done := by
  induction cs generalizing arguments others position done with
  | nil => rfl
  | cons c cs ih =>
    have hhead : others.head?.getD .nil = arguments.head?.getD .nil := by
      rw [List.head?_eq_getElem?, List.head?_eq_getElem?]
      exact h 0 (Nat.zero_lt_succ _)
    have htail (k : Nat) (hk : k < cs.length) :
        others.tail[k]?.getD .nil = arguments.tail[k]?.getD .nil := by
      rw [List.getElem?_tail, List.getElem?_tail]
      exact h (k + 1) (Nat.succ_lt_succ hk)
    unfold extractRun
    rw [hhead]
    refine bind_congr fun r => ?_
    cases r with
    | some item => exact ih _ _ htail
    | none => rfl

/-- A slot reads the arguments at its positions only. -/
theorem ArgumentSlot.extract_congr (s : ArgumentSlot) {arguments others : List Value}
    (h : ∀ i ∈ s.positions, others[i]?.getD .nil = arguments[i]?.getD .nil) :
    s.extract others = s.extract arguments := by
  obtain ⟨i, offset, source⟩ := s
  cases source with
  | single c =>
    have hhead :
        (others.drop offset).head?.getD .nil = (arguments.drop offset).head?.getD .nil := by
      rw [List.head?_drop, List.head?_drop]
      exact h offset List.mem_cons_self
    unfold extract
    dsimp only
    rw [hhead]
  | run e cs =>
    have hrest (k : Nat) (hk : k < cs.length) :
        (others.drop offset)[k]?.getD .nil = (arguments.drop offset)[k]?.getD .nil := by
      rw [List.getElem?_drop, List.getElem?_drop]
      refine h (offset + k) (List.mem_range'_1.mpr ⟨Nat.le_add_right _ _, ?_⟩)
      exact Nat.add_lt_add_left hk offset
    unfold extract
    dsimp only
    rw [extractRun_congr cs (offset + 1) [] hrest]
  | emptyArray e => rfl

theorem extractSlots_congr (slots : List ArgumentSlot) {arguments others : List Value}
    (done : List HostValue)
    (h : ∀ i ∈ slots.flatMap ArgumentSlot.positions,
      others[i]?.getD .nil = arguments[i]?.getD .nil) :
    extractSlots others slots done = extractSlots arguments slots done := by
  induction slots generalizing done with
  | nil => rfl
  | cons s rest ih =>
    unfold extractSlots
    rw [s.extract_congr fun i hi => h i (List.mem_append_left _ hi)]
    refine bind_congr fun r => ?_
    cases r with
    | ok v => exact ih _ fun i hi => h i (List.mem_append_right _ hi)
    | error e => rfl

/-! ## Whole plans -/

/-- What a plan for a number of arguments uses them for. -/
structure Plan.Consumes (plan : Plan) (m : Method) (count : Nat) : Prop where
  method : plan.method = m
  argumentCount : plan.argumentCount = count
  /-- In the order of the slots the arguments are used from the first to the last. -/
  covered : plan.slots.flatMap ArgumentSlot.positions = List.range count
  disjoint : plan.slots.Pairwise fun s s' => ∀ i ∈ s.positions, ∀ j ∈ s'.positions, i < j
  ordered : plan.slots.Pairwise fun s s' => s.param < s'.param
  /-- Outputs have no slot. -/
  inputs : ∀ s ∈ plan.slots, ∃ p, m.params[s.param]? = some p ∧ p.mode ≠ .output
  length : plan.template.length = m.params.length
  filled : ∀ (i : Nat) (p : Param), m.params[i]? = some p →
    ∃ way, p.Filled (slotsFor plan.slots i) plan.template[i]? way ∧
      ∀ other, p.Filled (slotsFor plan.slots i) plan.template[i]? other → other = way
  /-- Another number of arguments is refused before anything is read. -/
  refused : ∀ arguments : List Value, arguments.length ≠ count →
    plan.replay arguments = pure (.error .argumentCount)
  /-- Whatever lies behind the arguments, replaying does not read it. -/
  confined : ∀ arguments others : List Value, arguments.length = count →
    (∀ i < count, others[i]? = arguments[i]?) →
    plan.replay arguments = extractSlots others plan.slots plan.template

/-- Every plan that matching the parameters of a method gives uses each argument once, in the order
of the parameters, fills each parameter in one way, and reads nothing but the arguments. -/
theorem matchParameters_consumes (m : Method) (arguments : List Value) (w : World) (plan : Plan)
    (h : (matchParameters m arguments w).1 = some plan) :
    plan.Consumes m arguments.length := by
  obtain ⟨f, hadds, hcursor, rfl⟩ := matchParameters_filling h
  have hcovers : f.Covers m.params := by
    have hnil : Filling.Covers {} [] := .nil
    exact hadds.covers hnil
  have hpositions : f.slots.flatMap ArgumentSlot.positions = List.range arguments.length :=
    hcursor ▸ hcovers.positions
  have hsorted : (f.slots.flatMap ArgumentSlot.positions).Pairwise (· < ·) :=
    hpositions ▸ List.pairwise_lt_range
  exact {
    method := rfl
    argumentCount := rfl
    covered := hpositions
    disjoint := (List.pairwise_flatMap.mp hsorted).2
    ordered := hcovers.ordered
    inputs := hcovers.inputs
    length := hcovers.length
    filled := fun i p hp =>
      have ⟨way, hway⟩ := hcovers.filled i p hp
      ⟨way, hway, fun _ hother => hother.unique hway⟩
    refused := fun arguments' hlength => by
      unfold Plan.replay
      rw [if_pos (bne_iff_ne.mpr hlength)]
    confined := fun arguments' others hlength hothers => by
      have hcount : ¬ (arguments'.length != arguments.length) = true := by
        rw [hlength, bne_self_eq_false]
        exact Bool.false_ne_true
      unfold Plan.replay
      rw [if_neg hcount]
      refine (extractSlots_congr f.slots f.template fun i hi => ?_).symm
      rw [hpositions] at hi
      rw [hothers i (List.mem_range.mp hi)] }

/-- A method with an argument, an output, a default value and a variadic parameter. -/
def logMethod : Method where
  name := "log"
  declaringType := "Texts"
  params := [⟨.bool, .input, none, false⟩, ⟨.int .i32, .output, none, false⟩,
    ⟨.text, .input, some (.text "info"), false⟩, ⟨.array .bool, .input, none, true⟩]
  ret := .void
  body := some (.statements [])

/-- Its plan for three truth values. -/
def logPlan : Plan where
  method := logMethod
  template := [.bool false, .int .i32 0, .text "info", .null]
  slots := [⟨0, 0, .single (.scalar .bool)⟩,
    ⟨3, 1, .run .bool [.scalar .bool, .scalar .bool]⟩]
  outSlots := [1]
  returnsVoid := true
  argumentCount := 3

theorem matchParameters_consumes_log :
    (matchParameters logMethod [.boolean true, .boolean false, .boolean true] default).1 =
        some logPlan ∧
      logPlan.Consumes logMethod 3 :=
  ⟨rfl, matchParameters_consumes logMethod [.boolean true, .boolean false, .boolean true] default
    logPlan rfl⟩

end ScriptBridge
