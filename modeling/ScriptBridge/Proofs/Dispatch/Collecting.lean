import ScriptBridge.Proofs.Conversion.Choice
import ScriptBridge.Proofs.Conversion.Tidy
import ScriptBridge.Proofs.Dispatch.Caching
import ScriptBridge.Proofs.Dispatch.Variadic
import ScriptBridge.Proofs.Vm.Listing

/-!
# A variadic parameter gets the same array from a run and from a table

A parameter that collects scalars takes them one by one or out of one table. The arguments are read
by different sources, a run of conversions and a loop over the items, and both make a new array of
the same conversions in the same order.

1. `World.Offers`: the two ways to hand over some values, each with the source that reads it.
2. `Offers.extract_alike`, `Offers.extract_unlike`: what any source that the parameter accepts makes
   of them. Of one argument a source of another way makes nothing.
3. `Offers.tried`: the method takes both ways when it is tried anew.
4. `Remembered.matched`: every plan of an earlier call was made by matching, so
   `Offers.replay_remembered` knows what it makes of them.
5. `Offers.called`: the call of a dispatcher of the one method.
-/

namespace ScriptBridge

variable {w : World} {e : HostType} {v : Value} {vs arguments : List Value}

/-! ## Reading scalars -/

/-- What a value becomes as a scalar type. -/
def HostType.converted (e : HostType) (v : Value) : HostValue := (scalarOf? v e).getD .null

theorem HostType.unwrapNullable_scalar (h : e.isScalar = true) : e.unwrapNullable = e := by
  cases e <;> first | rfl | cases h

/-- Only truth values, numbers and texts are read as scalars. -/
theorem scalarOf?_plain {x : HostValue} (h : scalarOf? v e = some x) :
    v.isNil = false ∧ v.refs = [] ∧ (∀ t, v ≠ .table t) ∧
      ∀ w : World, w.objectBehind? v = none := by
  cases v with
  | boolean | number | text => exact ⟨rfl, rfl, nofun, fun _ => rfl⟩
  | _ => cases e <;> cases h

theorem scalarOf?_table (e : HostType) (t : TableRef) : scalarOf? (.table t) e = none := by
  cases e <;> rfl

theorem extract_table (e : HostType) (t : TableRef) (w : World) :
    (Conversion.scalar e).extract (.table t) w = (none, w) := by
  have hnil : (Value.table t).isNil = false := rfl
  unfold Conversion.extract readAs
  dsimp only
  rw [hnil, Bool.false_and, if_neg Bool.false_ne_true]
  exact congrArg (·, w) (scalarOf?_table _ t)

/-- A table is no run of scalars. -/
theorem extractRun_table (e : HostType) (t : TableRef) (position : Nat) (w : World) :
    extractRun (List.replicate 1 (.scalar e)) [.table t] position [] w =
      (.error (.invalid position), (release [] none w).2) := by
  rw [List.replicate_one]
  unfold extractRun
  rw [List.head?_cons, Option.getD_some, bind_of_eq (extract_table e t w)]
  rfl

/-- A slot for one argument fails if its conversion does. -/
theorem slotExtract_single {c : Conversion} (h : (c.extract v w).1 = none) :
    ∃ w', (⟨0, 0, .single c⟩ : ArgumentSlot).extract [v] w = (.error (.invalid 1), w') := by
  cases hread : c.extract v w with | mk r w₁
  rw [hread] at h
  obtain rfl : r = none := h
  refine ⟨w₁, ?_⟩
  unfold ArgumentSlot.extract
  dsimp only
  rw [List.drop_zero, List.head?_cons, Option.getD_some, bind_of_eq hread]
  rfl

/-- Whether a value matches a scalar type is told by its conversion. -/
theorem checkType_scalar (hscalar : e.isScalar = true) (v : Value) (w : World) :
    checkType e v w = ((scalarOf? v e).map fun _ => .scalar e, w) := by
  have hlist : w.list? e v = none := by
    unfold World.list?
    cases e <;> first | rfl | cases hscalar
  have hpick : w.pick e v = (scalarOf? v e).map fun _ => .scalar e := by
    unfold World.pick HostType.conversion
    rw [HostType.unwrapNullable_scalar hscalar, bne_self_eq_false, Bool.and_false,
      if_neg Bool.false_ne_true]
    cases e <;> first | rfl | cases hscalar
  exact (matchType_eq hlist).trans (congrArg (·, w) hpick)

/-- A scalar type, and values that each match it. -/
structure HostType.Takes (e : HostType) (vs : List Value) : Prop where
  scalar : e.isScalar = true
  converts : ∀ v ∈ vs, scalarOf? v e = some (e.converted v)

theorem HostType.Takes.of_checkType (hscalar : e.isScalar = true)
    (h : ∀ v ∈ vs, (checkType e v w).1.isSome = true) : e.Takes vs := by
  refine ⟨hscalar, fun v hv => ?_⟩
  have hsome := h v hv
  rw [checkType_scalar hscalar, Option.isSome_map] at hsome
  obtain ⟨x, hx⟩ := Option.isSome_iff_exists.mp hsome
  unfold converted
  rw [hx]
  rfl

namespace HostType.Takes

variable (h : e.Takes vs)
include h

theorem not_nil : ∀ v ∈ vs, v.isNil = false := fun v hv => (scalarOf?_plain (h.converts v hv)).1

theorem asType_eq (hv : v ∈ vs) (w : World) : asType e v w = (some (e.converted v), w) := by
  rw [asType_scalar (HostType.unwrapNullable_scalar h.scalar) h.scalar (h.not_nil v hv),
    h.converts v hv]

theorem refs_eq : (vs.map e.converted).flatMap HostValue.refs = [] := by
  refine List.flatMap_eq_nil_iff.mpr fun x hx => ?_
  obtain ⟨v, hv, rfl⟩ := List.mem_map.mp hx
  exact (scalarOf?_conforms (h.converts v hv)).1

/-! ### Items of a list -/

/-- An item is on the stack while it is converted, and the world is the same afterwards. -/
theorem convertItem_eq {t : TableRef} {position : Int} (hframe : w.machine.HasFrame)
    (hitem : (w.table t).getInt w.isLive position = v) (hv : v ∈ vs) :
    convertItem (asType e) t position w = (some (e.converted v), w) := by
  have hconvert := h.asType_eq (hitem ▸ hv) { w with
    machine := w.machine.push ((w.table t).getInt w.isLive position) }
  have hread := ScriptBridge.convertItem_eq hframe hconvert
  rw [hread, hitem, Machine.popValue_push hframe, (scalarOf?_plain (h.converts v hv)).2.1]
  rfl

theorem convertItems_eq {t : TableRef} (hlists : w.Lists t vs) {rest : List Value} {k : Nat}
    (hrest : vs.drop k = rest) (done : List HostValue) :
    convertItems (asType e) t rest.length (k + 1) done w =
      (some (done ++ rest.map e.converted), w) := by
  induction rest generalizing k done with
  | nil =>
    rw [List.map_nil, List.append_nil]
    rfl
  | cons v rest ih =>
    have hv : v ∈ vs := List.mem_of_mem_drop (hrest ▸ List.mem_cons_self)
    have hitem : (w.table t).getInt w.isLive (k + 1) = v := by
      have hhead : (vs.drop k).head? = some v := by rw [hrest]; rfl
      rw [List.head?_drop] at hhead
      rw [hlists.getInt_eq, List.getD_eq_getElem?_getD, hhead]
      rfl
    have htail : vs.drop (k + 1) = rest := by
      rw [← List.tail_drop, hrest]
      rfl
    rw [List.length_cons]
    unfold convertItems
    rw [bind_of_eq (h.convertItem_eq hlists.hasFrame hitem hv)]
    have hnext := ih htail (done ++ [e.converted v])
    rw [List.append_assoc] at hnext
    exact_mod_cast hnext

theorem tableToArray_eq {t : TableRef} (hlists : w.Lists t vs) :
    tableToArray e (.table t) w = (some (vs.map e.converted), w) := by
  have hlength : rawLength (.table t) w = (vs.length, w) := by
    rw [← hlists.length_eq h.not_nil]
    rfl
  unfold tableToArray readItems
  dsimp only
  rw [bind_of_eq hlength]
  have hitems := h.convertItems_eq hlists (k := 0) List.drop_zero []
  exact_mod_cast hitems

/-! ### Runs -/

theorem extract_scalar (hv : v ∈ vs) (w : World) :
    (Conversion.scalar e).extract v w = (some (e.converted v), w) := by
  unfold Conversion.extract readAs
  dsimp only
  rw [h.not_nil v hv, Bool.false_and, if_neg Bool.false_ne_true,
    HostType.unwrapNullable_scalar h.scalar]
  exact congrArg (·, w) (h.converts v hv)

theorem extractRun_eq (hsub : arguments ⊆ vs) (position : Nat) (done : List HostValue) (w : World) :
    extractRun (arguments.map fun _ => .scalar e) arguments position done w =
      (.ok (done ++ arguments.map e.converted), w) := by
  induction arguments generalizing position done with
  | nil =>
    rw [List.map_nil, List.map_nil, List.append_nil]
    rfl
  | cons v rest ih =>
    have hnext := ih (fun x hx => hsub (List.mem_cons_of_mem v hx)) (position + 1)
      (done ++ [e.converted v])
    rw [List.append_assoc] at hnext
    rw [List.map_cons]
    unfold extractRun
    rw [List.head?_cons, Option.getD_some,
      bind_of_eq (h.extract_scalar (hsub List.mem_cons_self) w)]
    exact hnext

/-- A scalar has no items. -/
theorem itemsConvert_eq (hv : v ∈ vs) (w : World) :
    itemsConvert (ScriptBridge.tableToArray e) v w = (false, w) := by
  obtain ⟨hnil, -, htable, -⟩ := scalarOf?_plain (h.converts v hv)
  cases v with
  | table t => exact absurd rfl (htable t)
  | _ => rfl

theorem matchRun_eq (hsub : arguments ⊆ vs) (w : World) :
    matchRun e arguments w = (arguments.map fun _ => .scalar e, w) := by
  induction arguments with
  | nil => rfl
  | cons v rest ih =>
    have hv : v ∈ vs := hsub List.mem_cons_self
    have hcheck : checkType e v w = (some (.scalar e), w) := by
      rw [checkType_scalar h.scalar, h.converts v hv]
      rfl
    unfold matchRun
    rw [bind_of_eq hcheck]
    dsimp only
    rw [bind_of_eq (ih fun x hx => hsub (List.mem_cons_of_mem v hx))]
    rfl

end HostType.Takes

/-! ## The ways to hand over values -/

/-- Values may be handed over one by one or in a table that lists them. With each way goes the
source that matching chooses for it. -/
inductive World.Offers (w : World) (e : HostType) (vs : List Value) :
    List Value → ArgumentSource → Prop where
  | nothing (h : vs = []) : w.Offers e vs [] (.emptyArray e)
  | run (h : vs ≠ []) : w.Offers e vs vs (.run e (vs.map fun _ => .scalar e))
  | table (t : TableRef) (h : w.Lists t vs) : w.Offers e vs [.table t] (.single (.arrayTable e))

/-- The object is an array of some items. -/
def World.HoldsArray (w : World) (o : ObjectRef) (e : HostType) (items : List HostValue) : Prop :=
  ∃ cls, w.objects.get? o.index = some ⟨cls, .array e items.toArray⟩

theorem World.holdsArray_newArray (w : World) (e : HostType) (items : List HostValue) :
    (newArray e items.toArray w).2.HoldsArray (newArray e items.toArray w).1 e items :=
  ⟨_, World.newArray_cell w e items.toArray⟩

/-- What is known of a source that a collecting parameter accepts. -/
theorem Param.Accepts.collecting {p : Param} {source : ArgumentSource} (hscalar : e.isScalar = true)
    (htype : p.type = .array e) (haccepts : p.Accepts source) :
    source = .single (.object (.array e)) ∨ source = .single (.arrayTable e) ∨
      (∃ n, source = .run e (List.replicate n (.scalar e))) ∨ source = .emptyArray e := by
  have helement {e' : HostType} (h : p.element? = some e') : e' = e := by
    have htype' := Param.type_of_element? h
    rw [htype] at htype'
    cases htype'
    rfl
  cases source with
  | single c =>
    have hreads : c.Reads p.type := haccepts
    rw [htype] at hreads
    clear haccepts
    cases hreads with
    | array h =>
      cases h
      exact .inl rfl
    | arrayTable h =>
      cases h
      exact .inr (.inl rfl)
    | scalar h | any h | handle h | «class» h | delegate h | interface h => cases h
  | run e' cs =>
    obtain rfl := helement haccepts.1
    have hscalars (c : Conversion) (hc : c ∈ cs) : c = .scalar e' := by
      have hself := HostType.unwrapNullable_scalar hscalar
      cases haccepts.2 c hc with
      | scalar => rfl
      | any h | handle h | «class» h | array h | arrayTable h | delegate h | interface h =>
        rw [hself] at h
        subst h
        cases hscalar
    exact .inr (.inr (.inl ⟨cs.length, by rw [List.eq_replicate_of_mem hscalars]; simp⟩))
  | emptyArray e' =>
    obtain rfl := helement haccepts.2
    exact .inr (.inr (.inr rfl))

namespace World.Offers

variable {source source' : ArgumentSource} {p : Param}

/-- The source that goes with a way makes a new array of the conversions. -/
theorem extract (h : w.Offers e vs arguments source) (htakes : e.Takes vs) :
    (⟨0, 0, source⟩ : ArgumentSlot).extract arguments w =
      (.ok (.object (newArray e (vs.map e.converted).toArray w).1),
        (newArray e (vs.map e.converted).toArray w).2) := by
  unfold ArgumentSlot.extract
  dsimp only
  cases h with
  | nothing h =>
    subst h
    rfl
  | run =>
    dsimp only
    rw [List.drop_zero, bind_of_eq (htakes.extractRun_eq (List.Subset.refl vs) _ [] w)]
    rfl
  | table t h =>
    have hread : (Conversion.arrayTable e).extract (.table t) w =
        (some (.object (newArray e (vs.map e.converted).toArray w).1),
          (newArray e (vs.map e.converted).toArray w).2) := by
      have hnil : (Value.table t).isNil = false := rfl
      unfold Conversion.extract readAs
      dsimp only
      rw [hnil, if_neg Bool.false_ne_true, bind_of_eq (htakes.tableToArray_eq h)]
      rfl
    dsimp only
    rw [List.drop_zero, List.head?_cons, Option.getD_some, bind_of_eq hread]
    rfl

theorem objectBehind? (h : w.Offers e vs arguments source) (htakes : e.Takes vs)
    (hv : v ∈ arguments) : w.objectBehind? v = none := by
  cases h with
  | nothing => cases hv
  | run => exact (scalarOf?_plain (htakes.converts v hv)).2.2.2 w
  | table t h =>
    obtain rfl := List.mem_singleton.mp hv
    exact h.objectBehind?

theorem not_nil (h : w.Offers e vs arguments source) (htakes : e.Takes vs) :
    ∀ v ∈ arguments, v.isNil = false := by
  intro v hv
  cases h with
  | nothing => cases hv
  | run => exact htakes.not_nil v hv
  | table t =>
    obtain rfl := List.mem_singleton.mp hv
    rfl

/-- Of no argument, or of several ones, every source makes that array. Of one argument the source
that goes with its way does. -/
theorem extract_alike (h : w.Offers e vs arguments source) (htakes : e.Takes vs)
    (htype : p.type = .array e) (haccepts : p.Accepts source')
    (hcount : source'.count = arguments.length)
    (hsame : arguments.length = 1 → source' = source) :
    (⟨0, 0, source'⟩ : ArgumentSlot).extract arguments w =
      (.ok (.object (newArray e (vs.map e.converted).toArray w).1),
        (newArray e (vs.map e.converted).toArray w).2) := by
  by_cases hone : arguments.length = 1
  · rw [hsame hone]
    exact h.extract htakes
  · obtain rfl | rfl | ⟨n, rfl⟩ | rfl := haccepts.collecting htakes.scalar htype
    · exact absurd hcount.symm hone
    · exact absurd hcount.symm hone
    · have hn : n = arguments.length := (List.length_replicate (n := n)).symm.trans hcount
      cases h with
      | nothing h =>
        subst h hn
        rfl
      | run h =>
        rw [hn, ← List.map_const']
        exact (World.Offers.run h).extract htakes
      | table => exact absurd rfl hone
    · obtain rfl := List.eq_nil_of_length_eq_zero hcount.symm
      cases h with
      | nothing h => exact (World.Offers.nothing h).extract htakes
      | run h => exact absurd rfl h

/-- No object stands behind an argument, so none of them is read as one. -/
theorem extract_object (h : w.Offers e vs arguments source) (htakes : e.Takes vs)
    (hv : v ∈ arguments) : ((Conversion.object (.array e)).extract v w).1 = none := by
  have hnone : w.fittingObject? v (.array e) = none := by
    unfold World.fittingObject?
    rw [h.objectBehind? htakes hv]
    rfl
  have hno : w.fulfils (.object (.array e)) v = false := by
    unfold World.fulfils
    dsimp only
    rw [h.not_nil htakes v hv, hnone]
    rfl
  have hsome : (readAs noItems (.object (.array e)) v w).1.isSome =
      w.fulfils (.object (.array e)) v := by
    refine readAs_isSome (fun _ he => ?_) w
    cases he
  exact Option.isNone_iff_eq_none.mp (Option.isSome_eq_false_iff.mp (hsome.trans hno))

/-- Only a table has items. -/
theorem extract_arrayTable (h : w.Offers e vs arguments source) (htakes : e.Takes vs)
    (hv : v ∈ arguments) (hother : .single (.arrayTable e) ≠ source) :
    ((Conversion.arrayTable e).extract v w).1 = none := by
  cases h with
  | nothing => cases hv
  | run =>
    obtain ⟨hnil, -, htable, -⟩ := scalarOf?_plain (htakes.converts v hv)
    cases v with
    | table t => exact absurd rfl (htable t)
    | nil => cases hnil
    | _ => rfl
  | table => exact absurd rfl hother

/-- Of one argument a source of another way makes nothing. -/
theorem extract_unlike (h : w.Offers e vs arguments source) (htakes : e.Takes vs)
    (htype : p.type = .array e) (haccepts : p.Accepts source')
    (hcount : source'.count = arguments.length) (hone : arguments.length = 1)
    (hother : source' ≠ source) :
    ∃ w', (⟨0, 0, source'⟩ : ArgumentSlot).extract arguments w = (.error (.invalid 1), w') := by
  obtain ⟨v, rfl⟩ := List.length_eq_one_iff.mp hone
  obtain rfl | rfl | ⟨n, rfl⟩ | rfl := haccepts.collecting htakes.scalar htype
  · exact slotExtract_single (h.extract_object htakes List.mem_cons_self)
  · exact slotExtract_single (h.extract_arrayTable htakes List.mem_cons_self hother)
  · -- A table is no scalar.
    obtain rfl : n = 1 := (List.length_replicate (n := n)).symm.trans hcount
    cases h with
    | run => exact absurd rfl hother
    | table t =>
      refine ⟨(release [] none w).2, ?_⟩
      unfold ArgumentSlot.extract
      dsimp only
      rw [List.drop_zero, bind_of_eq (extractRun_table e t 1 w)]
      rfl
  · cases hcount

end World.Offers

/-! ## Plans of a method that collects -/

/-- A method whose only parameter collects scalars into an array. -/
structure Method.Collects (m : Method) (p : Param) (e : HostType) : Prop where
  params : m.params = [p]
  mode : p.mode ≠ .output
  variadic : p.variadic = true
  type : p.type = .array e

theorem Method.Collects.element? {m : Method} {p : Param} (h : m.Collects p e) :
    p.element? = some e := by
  unfold Param.element?
  rw [h.type]

/-- One slot fills the parameter from all arguments. -/
structure Plan.Gathers (plan : Plan) (m : Method) (source : ArgumentSource) : Prop where
  method : plan.method = m
  template : ∃ x, x.refs = [] ∧ plan.template = [x]
  slots : plan.slots = [⟨0, 0, source⟩]
  count : source.count = plan.argumentCount

namespace Plan.Gathers

variable {plan : Plan} {m : Method} {source : ArgumentSource} (h : plan.Gathers m source)
include h

theorem source?_eq : plan.source? 0 = some source := by
  unfold source?
  rw [h.slots]
  rfl

theorem replay_eq {x : HostValue} {w₁ : World} (hcount : arguments.length = plan.argumentCount)
    (hslot : (⟨0, 0, source⟩ : ArgumentSlot).extract arguments w = (.ok x, w₁)) :
    plan.replay arguments w = (.ok [x], w₁) := by
  obtain ⟨y, -, htemplate⟩ := h.template
  unfold replay
  rw [if_neg fun hne => bne_iff_ne.mp hne hcount, h.slots, htemplate]
  unfold extractSlots
  rw [bind_of_eq hslot]
  rfl

theorem replay_error {reason : ReplayError} {w₁ : World}
    (hcount : arguments.length = plan.argumentCount)
    (hslot : (⟨0, 0, source⟩ : ArgumentSlot).extract arguments w = (.error reason, w₁)) :
    plan.replay arguments w = (.error reason, w₁.settle) := by
  obtain ⟨y, hy, htemplate⟩ := h.template
  unfold replay
  rw [if_neg fun hne => bne_iff_ne.mp hne hcount, h.slots, htemplate]
  unfold extractSlots
  rw [bind_of_eq hslot]
  dsimp only
  rw [List.flatMap_singleton, hy]
  rfl

end Plan.Gathers

section

variable {m : Method} {p : Param}

/-- A plan for such a method fills the parameter from all arguments, unless there were none and the
parameter has a default. -/
theorem Method.Collects.gathers (h : m.Collects p e) {plan : Plan}
    (hmatch : (matchParameters m arguments w).1 = some plan) (hfits : plan.Fits m) :
    plan.argumentCount = 0 ∧ p.default ≠ none ∨
      ∃ source, p.Accepts source ∧ plan.Gathers m source := by
  obtain ⟨f, hadds, hcursor, hplan⟩ := matchParameters_filling hmatch
  rw [h.params] at hadds
  have hslot {source : ArgumentSource} (htemplate : f.template = [p.type.defaultValue])
      (hslots : f.slots = [⟨0, 0, source⟩]) (hcount : f.cursor = source.count) :
      ∃ source, p.Accepts source ∧ plan.Gathers m source := by
    have hgathers : plan.Gathers m source := {
      method := hfits.method
      template := ⟨_, p.type.defaultValue_refs, by rw [hplan, htemplate]⟩
      slots := by rw [hplan, hslots]
      count := by rw [hplan, ← hcount, hcursor] }
    obtain ⟨q, hq, hsource⟩ := hfits.fills.accepts ⟨0, 0, source⟩ (by simp [hgathers.slots])
    rw [h.params] at hq
    cases hq
    exact ⟨source, hsource, hgathers⟩
  cases hadds with
  | cons first others =>
    cases others
    cases first with
    | output mode => exact absurd mode h.mode
    | fixed _ default =>
      refine .inl ⟨by rw [hplan, ← hcursor]; rfl, ?_⟩
      rw [default]
      exact nofun
    | single _ c =>
      obtain ⟨_, heq⟩ := Filling.single_eq {} p c
      rw [heq] at hslot
      exact .inr (hslot rfl rfl rfl)
    | collected _ _ source => exact .inr (hslot rfl rfl (Nat.zero_add _))

/-! ## Matching anew -/

/-- A method whose only parameter takes all arguments by one slot. -/
theorem matchParameters_slot {f : Filling} {source : ArgumentSource} {w₁ : World}
    (h : m.Collects p e)
    (hfill : fillParam arguments {} p w = (some f, w₁))
    (hslot : ∃ outSlots, f = { Filling.slot {} p source source.count with outSlots })
    (hcount : source.count = arguments.length) :
    ∃ plan, matchParameters m arguments w = (some plan, w₁) ∧ plan.Gathers m source ∧
      plan.argumentCount = arguments.length := by
  obtain ⟨outSlots, rfl⟩ := hslot
  have hall : ((0 + source.count) != arguments.length) = false := by
    rw [Nat.zero_add, hcount, bne_self_eq_false]
  have hfills : fillParams arguments m.params {} w =
      (some { Filling.slot {} p source source.count with outSlots }, w₁) := by
    rw [h.params]
    unfold fillParams
    rw [bind_of_eq hfill]
    rfl
  let plan : Plan := {
    method := m
    template := [p.type.defaultValue]
    slots := [⟨0, 0, source⟩]
    outSlots := outSlots
    returnsVoid := m.ret == .void
    argumentCount := arguments.length }
  have hmatch : matchParameters m arguments w = (some plan, w₁) := by
    unfold matchParameters
    rw [bind_of_eq hfills]
    show (if ((0 + source.count) != arguments.length) = true then _ else _ : Action _) w₁ = _
    rw [hall, if_neg Bool.false_ne_true]
    rfl
  exact ⟨plan, hmatch, ⟨rfl, ⟨_, p.type.defaultValue_refs, rfl⟩, rfl, hcount⟩, rfl⟩

/-- A scalar is no array. -/
theorem checkType_array (htakes : e.Takes vs) (hv : v ∈ vs) (w : World) :
    checkType (.array e) v w = (none, w) := by
  obtain ⟨hnil, -, htable, hnone⟩ := scalarOf?_plain (htakes.converts v hv)
  have hlist : w.list? (.array e) v = none := by
    unfold World.list?
    cases v with
    | table t => exact absurd rfl (htable t)
    | _ => rfl
  have hpick : w.pick (.array e) v = none := by
    show (if v.isNil && HostType.array e != .array e then _
      else if v.isNil then _ else w.pickObject (.array e) v) = _
    rw [hnil, Bool.false_and, if_neg Bool.false_ne_true, if_neg Bool.false_ne_true]
    unfold World.pickObject World.fittingObject?
    rw [hnone]
    rfl
  exact (matchType_eq hlist).trans (congrArg (·, w) hpick)

/-- A list that is read as an array leaves the list as it was. -/
theorem checkType_lists (htakes : e.Takes vs) {t : TableRef} (h : w.Lists t vs) :
    checkType (.array e) (.table t) w = (some (.arrayTable e), w.settle) := by
  have hlist : w.list? (.array e) (.table t) = some e := by
    unfold World.list?
    dsimp only [HostType.unwrapNullable]
    rw [h.objectBehind?]
    rfl
  have hitems : itemsConvert (itemsFor (.array e)) (.table t) w = (true, w.settle) := by
    show itemsConvert (tableToArray e) (.table t) w = _
    unfold itemsConvert
    rw [bind_of_eq (htakes.tableToArray_eq h)]
    dsimp only
    rw [htakes.refs_eq]
    rfl
  refine (matchType_list hlist).trans ?_
  rw [hitems]
  rfl

theorem fillParam_missing (h : m.Collects p e) (hdefault : p.default = none) (w : World) :
    fillParam [] {} p w = (some (Filling.slot {} p (.emptyArray e) 0), w) := by
  rw [fillParam_nil h.mode List.drop_nil]
  unfold fillMissing
  rw [hdefault, h.element?, h.variadic]
  rfl

theorem fillParam_run (h : m.Collects p e) (htakes : e.Takes vs) (hvs : vs ≠ []) (w : World) :
    fillParam vs {} p w = (some (Filling.slot {} p (.run e (vs.map fun _ => .scalar e))
      (vs.map fun _ => Conversion.scalar e).length), w) := by
  obtain ⟨v, rest, rfl⟩ := List.exists_cons_of_ne_nil hvs
  have hsource (cs : List Conversion) (hcs : (v :: rest).map (fun _ => .scalar e) = cs) :
      sourceOf e (v :: rest) false w = (some (.run e cs, cs.length), w) := by
    unfold sourceOf
    rw [if_neg Bool.false_ne_true, bind_of_eq (htakes.matchRun_eq (List.Subset.refl _) w), hcs]
    subst hcs
    rfl
  have hcheck : checkType p.type v w = (none, w) := by
    rw [h.type]
    exact checkType_array htakes List.mem_cons_self w
  rw [fillParam_cons h.mode List.drop_zero, bind_of_eq hcheck,
    fillMatched_variadic h.variadic h.type, matchVariadic_cons, bind_assoc,
    bind_of_eq (htakes.itemsConvert_eq List.mem_cons_self w), bind_of_eq (hsource _ rfl)]
  rfl

theorem fillParam_table (h : m.Collects p e) (htakes : e.Takes vs) {t : TableRef}
    (hlists : w.Lists t vs) :
    fillParam [.table t] {} p w = (some (Filling.single {} p (.arrayTable e)), w.settle) := by
  have hcheck : checkType p.type (.table t) w = (some (.arrayTable e), w.settle) := by
    rw [h.type]
    exact checkType_lists htakes hlists
  rw [fillParam_cons h.mode List.drop_zero, bind_of_eq hcheck]
  rfl

/-- Both ways are taken, by the source that goes with them. -/
theorem World.Offers.matched {source : ArgumentSource} (h : m.Collects p e)
    (htakes : e.Takes vs) (hoffers : w.Offers e vs arguments source)
    (hdefault : arguments = [] → p.default = none) :
    ∃ plan w₁, matchParameters m arguments w = (some plan, w₁) ∧ plan.Gathers m source ∧
      plan.argumentCount = arguments.length ∧ w₁.Offers e vs arguments source := by
  cases hoffers with
  | nothing hvs =>
    obtain ⟨plan, hmatch, hgathers, hcount⟩ :=
      matchParameters_slot h (fillParam_missing h (hdefault rfl) w) ⟨_, rfl⟩ rfl
    exact ⟨plan, w, hmatch, hgathers, hcount, .nothing hvs⟩
  | run hvs =>
    obtain ⟨plan, hmatch, hgathers, hcount⟩ :=
      matchParameters_slot h (fillParam_run h htakes hvs w) ⟨_, rfl⟩ (List.length_map _)
    exact ⟨plan, w, hmatch, hgathers, hcount, .run hvs⟩
  | table t hlists =>
    obtain ⟨plan, hmatch, hgathers, hcount⟩ :=
      matchParameters_slot h (fillParam_table h htakes hlists) (Filling.single_eq {} p _) rfl
    exact ⟨plan, w.settle, hmatch, hgathers, hcount, .table t hlists.settle⟩

/-! ## Reading by a plan -/

/-- The arguments are one array of the conversions of some values. -/
def World.Collected (w : World) (e : HostType) (vs : List Value) (values : List HostValue) : Prop :=
  ∃ o, values = [.object o] ∧ w.HoldsArray o e (vs.map e.converted)

/-- A plan for one argument reads it again only if that comes the same way. -/
def Plan.Rereads (plan : Plan) (source : ArgumentSource) : Prop :=
  plan.argumentCount = 1 → plan.source? 0 = some source

variable {source : ArgumentSource} {plan : Plan}

theorem World.Offers.collected (w : World) (e : HostType) (vs : List Value) :
    (newArray e (vs.map e.converted).toArray w).2.Collected e vs
      [.object (newArray e (vs.map e.converted).toArray w).1] :=
  ⟨_, rfl, w.holdsArray_newArray e _⟩

/-- What a plan for such a method makes of as many arguments. -/
theorem World.Offers.replayed (h : m.Collects p e) (htakes : e.Takes vs)
    (hoffers : w.Offers e vs arguments source) {source' : ArgumentSource}
    (haccepts : p.Accepts source') (hgathers : plan.Gathers m source')
    (hcount : arguments.length = plan.argumentCount) :
    (plan.Rereads source → ∃ values w', plan.replay arguments w = (.ok values, w') ∧
      w'.Collected e vs values) ∧
    (¬ plan.Rereads source → ∃ w', plan.replay arguments w = (.error (.invalid 1), w')) := by
  have hall : source'.count = arguments.length := hgathers.count.trans hcount.symm
  constructor
  · intro hrereads
    have hsame (hone : arguments.length = 1) : source' = source := by
      have hsource := hrereads (hcount ▸ hone)
      rw [hgathers.source?_eq] at hsource
      exact Option.some.inj hsource
    have hslot := hoffers.extract_alike htakes h.type haccepts hall hsame
    exact ⟨_, _, hgathers.replay_eq hcount hslot, World.Offers.collected w e vs⟩
  · intro hother
    obtain ⟨hone, hne⟩ := Classical.not_imp.mp hother
    have hsource : source' ≠ source := fun heq => hne (heq ▸ hgathers.source?_eq)
    obtain ⟨w₁, hslot⟩ := hoffers.extract_unlike htakes h.type haccepts hall (hcount.trans hone)
      hsource
    exact ⟨w₁.settle, hgathers.replay_error hcount hslot⟩

/-- The method takes both ways when it is tried anew. -/
theorem World.Offers.tried (h : m.Collects p e) (htakes : e.Takes vs)
    (hoffers : w.Offers e vs arguments source) (hdefault : arguments = [] → p.default = none) :
    ∃ plan values w', tryCandidate m arguments w = (some (plan, values), w') ∧
      plan.method = m ∧ w'.Collected e vs values := by
  obtain ⟨plan, w₁, hmatch, hgathers, hcount, hoffers⟩ := hoffers.matched h htakes hdefault
  have hreplay := hgathers.replay_eq hcount.symm (hoffers.extract htakes)
  refine ⟨plan, _, _, ?_, hgathers.method, World.Offers.collected w₁ e vs⟩
  unfold tryCandidate
  rw [bind_of_eq hmatch]
  dsimp only
  rw [bind_of_eq hreplay]
  rfl

/-! ## Plans of earlier calls -/

/-- A plan that is remembered was made by matching the arguments of some call. -/
theorem Remembered.matched {d : Dispatcher} {cached : Option Plan} (h : Remembered d cached) :
    ∀ plan, cached = some plan →
      ∃ arguments w, (matchParameters plan.method arguments w).1 = some plan := by
  induction h with
  | none => exact fun _ h => nomatch h
  | @prepared cached arguments w w' plan values before sound defaults now ih =>
    intro plan' hplan'
    cases hplan'
    have hselects := prepare_selects arguments sound defaults before.suits
    rw [now] at hselects
    generalize hresult : (Except.ok (plan, values), w') = result at hselects
    cases hselects with
    | replayed remembered =>
      cases hresult
      exact ih _ remembered
    | unreadable => cases hresult
    | first _ _ first =>
      rw [← hresult] at first
      cases first with
      | accepted first =>
        obtain ⟨_, _, _, -, -, htry⟩ := first
        exact ⟨_, _, matchParameters_of_tryCandidate htry⟩

/-- What a plan that any dispatcher remembers makes of as many arguments. -/
theorem World.Offers.replay_remembered {d : Dispatcher} (h : m.Collects p e) (htakes : e.Takes vs)
    (hoffers : w.Offers e vs arguments source) (hdefault : arguments = [] → p.default = none)
    (hplan : Remembered d (some plan)) (hmethod : plan.method = m)
    (hcount : arguments.length = plan.argumentCount) :
    (plan.Rereads source → ∃ values w', plan.replay arguments w = (.ok values, w') ∧
      w'.Collected e vs values) ∧
    (¬ plan.Rereads source → ∃ w', plan.replay arguments w = (.error (.invalid 1), w')) := by
  obtain ⟨given, w₀, hmatch⟩ := hplan.matched plan rfl
  have hfits := (hplan.suits plan rfl).2
  rw [hmethod] at hmatch hfits
  obtain ⟨hnone, hsome⟩ | ⟨source', haccepts, hgathers⟩ := h.gathers hmatch hfits
  · exact absurd (hdefault (List.eq_nil_of_length_eq_zero (hcount.trans hnone))) hsome
  · exact hoffers.replayed h htakes haccepts hgathers hcount

/-! ## Preparing a call -/

theorem World.Offers.of_same {w' : World} (h : w.Offers e vs arguments source)
    (hstack : w.machine.SameStack w'.machine)
    (hregistry : w'.machine.registry = w.machine.registry) (htables : w'.tables = w.tables) :
    w'.Offers e vs arguments source := by
  cases h with
  | nothing h => exact .nothing h
  | run h => exact .run h
  | table t h => exact .table t (h.of_same hstack hregistry (by rw [htables]))

theorem World.Offers.collectReleased (h : w.Offers e vs arguments source) :
    (collectReleased w).2.Offers e vs arguments source := by
  cases h with
  | nothing h => exact .nothing h
  | run h => exact .run h
  | table t h => exact .table t h.collectReleased

theorem World.Offers.unhold (h : w.Offers e vs arguments source) (refs : List Ref) :
    (unhold refs w).2.Offers e vs arguments source := by
  have hunhold : (ScriptBridge.unhold refs w).2 = { w with
      held := refs.foldl List.erase w.held
      dropped := w.dropped ++ refs.map (⟨·, none⟩) } :=
    congrArg Prod.snd (discard_eq refs none { w with held := refs.foldl List.erase w.held })
  rw [hunhold]
  exact h.of_same (.refl _) rfl rfl

/-- The plan that a dispatcher has, if it is for as many arguments, reads again what comes the same
way. -/
def Dispatcher.Rereads (d : Dispatcher) (arguments : List Value) (source : ArgumentSource) : Prop :=
  ∀ plan, d.plan = some plan → arguments.length = plan.argumentCount → plan.Rereads source

section

variable {d : Dispatcher} (h : m.Collects p e) (htakes : e.Takes vs)
variable (hdefault : arguments = [] → p.default = none) (hsingle : d.candidates = [m])
include h htakes hdefault hsingle

theorem World.Offers.prepared_anew (hoffers : w.Offers e vs arguments source) :
    ∃ plan values w', prepare d none arguments w = (.ok (plan, values), w') ∧
      plan.method = m ∧ w'.Collected e vs values := by
  obtain ⟨plan, values, w₁, htry, hmethod, hcollected⟩ := hoffers.tried h htakes hdefault
  have hresolve : resolve d.candidates arguments w = (some (plan, values), w₁) := by
    rw [hsingle]
    unfold resolve
    rw [bind_of_eq htry]
    rfl
  refine ⟨plan, values, (hold plan.refs w₁).2, ?_, hmethod, hcollected⟩
  show resolveCall d arguments w = _
  unfold resolveCall
  rw [bind_of_eq hresolve]
  rfl

/-- What a dispatcher of the one method prepares. -/
theorem World.Offers.prepared (hoffers : w.Offers e vs arguments source)
    (hplan : Remembered d d.plan) :
    (d.Rereads arguments source →
      ∃ plan values w', prepare d d.plan arguments w = (.ok (plan, values), w') ∧
        plan.method = m ∧ w'.Collected e vs values) ∧
    (¬ d.Rereads arguments source →
      ∃ w', prepare d d.plan arguments w =
        (.error (.invalidArgument d.callable 1), w')) := by
  have hanew {w : World} (hoffers : w.Offers e vs arguments source) :=
    hoffers.prepared_anew h htakes hdefault hsingle
  unfold Dispatcher.Rereads
  cases hcached : d.plan with
  | none => exact ⟨fun _ => hanew hoffers, fun hother => absurd (fun _ h => nomatch h) hother⟩
  | some plan =>
    rw [hcached] at hplan
    have hmethod : plan.method = m :=
      List.mem_singleton.mp (hsingle ▸ (hplan.suits plan rfl).1)
    by_cases hcount : arguments.length = plan.argumentCount
    · obtain ⟨hagain, hother⟩ :=
        hoffers.replay_remembered h htakes hdefault hplan hmethod hcount
      constructor
      · intro hrereads
        obtain ⟨values, w₁, hreplay, hcollected⟩ := hagain (hrereads plan rfl hcount)
        exact ⟨plan, values, w₁, prepare_of_replay hreplay, hmethod, hcollected⟩
      · intro hrereads
        have hnot : ¬ plan.Rereads source := fun hyes =>
          hrereads fun _ heq _ => Option.some.inj heq ▸ hyes
        obtain ⟨w₁, hreplay⟩ := hother hnot
        exact ⟨_, prepare_of_single hreplay hsingle⟩
    · have hfailed := prepare_of_failed (d := d) (replay_of_ne hcount w) fun ⟨_, h⟩ => nomatch h
      rw [hfailed]
      refine ⟨fun _ => hanew (hoffers.unhold plan.refs), fun hother => absurd ?_ hother⟩
      exact fun _ heq heq' => absurd (Option.some.inj heq ▸ heq') hcount

end

/-! ## The call -/

theorem Machine.SameStack.valuesFrom_eq {a b : Machine} (h : a.SameStack b) (first : Int) :
    b.valuesFrom first = a.valuesFrom first := by
  unfold Machine.valuesFrom Machine.top Machine.base
  rw [h.stack, h.frames]
  exact List.map_congr_left fun k _ => h.value_eq _

/-- A dispatcher of the one method is called. -/
theorem World.Offers.called {d : Dispatcher} {target : Option ObjectRef} {w₁ : World}
    (h : m.Collects p e) (htakes : e.Takes vs) (ref : DispatcherRef) (first : Int)
    (hoffers : w.Offers e vs (w.machine.valuesFrom first) source)
    (hdefault : w.machine.valuesFrom first = [] → p.default = none)
    (hsession : w.session?.isSome = true)
    (hd : (ScriptBridge.collectReleased w).2.dispatchers.get? ref.index = some d)
    (hsingle : d.candidates = [m]) (hplan : Remembered d d.plan)
    (htarget : ScriptBridge.findTarget d (ScriptBridge.collectReleased w).2 =
      .ok (target, first) w₁) :
    (d.Rereads (w.machine.valuesFrom first) source → ∃ plan values w', plan.method = m ∧
      (w'.atInvocation target).Collected e vs values ∧
      ∀ E, dispatch E ref w = finishDispatch E ref d plan target values w') ∧
    (¬ d.Rereads (w.machine.valuesFrom first) source → ∃ w', ∀ E, dispatch E ref w =
      raiseCause (.invalidArgument d.callable 1) w') := by
  have hcall := dispatch_of_target hsession hd
  have hsame := w.collectReleased_sameStack.valuesFrom_eq first
  have hoffers := hoffers.collectReleased
  rw [htarget] at hcall
  obtain rfl := findTarget_ok htarget
  dsimp only at hcall
  rw [hsame] at hcall
  have htaken : (takePlan ref (ScriptBridge.collectReleased w).2).2.Offers e vs
      (w.machine.valuesFrom first) source := by
    rw [takePlan_eq hd]
    exact hoffers.of_same (.refl _) rfl rfl
  obtain ⟨hagain, hother⟩ := htaken.prepared h htakes hdefault hsingle hplan
  constructor
  · intro hrereads
    obtain ⟨plan, values, w', hprepare, hmethod, hcollected⟩ := hagain hrereads
    refine ⟨plan, values, w', hmethod, hcollected, fun E => ?_⟩
    rw [hcall E, hprepare]
    rfl
  · intro hrereads
    obtain ⟨w', hprepare⟩ := hother hrereads
    refine ⟨w', fun E => ?_⟩
    rw [hcall E, hprepare]
    rfl

end

/-- A method whose only parameter collects scalars, over values that each match the scalar type and
that are handed over one by one or in one table. Every value is converted by itself, in every
world. In both ways the method is accepted when it is tried anew, and it gets an array of the
conversions in order, unless it is called without arguments and has a default for its parameter. A
plan that is remembered for as many arguments gives that array too, but for one argument only if the
plan was made for the same way, and fails otherwise. So a dispatcher of this one method runs it with
the array, or it fails with the number of the argument because its last call had one argument that
came another way. -/
theorem run_and_table_alike (w : World) (m : Method) (p : Param) (e : HostType)
    (vs arguments : List Value) (source : ArgumentSource) (hcollects : m.Collects p e)
    (hscalar : e.isScalar = true) (hvs : ∀ v ∈ vs, (checkType e v w).1.isSome = true)
    (hoffers : w.Offers e vs arguments source) (hdefault : arguments = [] → p.default = none) :
    (∀ v ∈ vs, ∀ w, asType e v w = (some (e.converted v), w)) ∧
    (∃ plan values w', tryCandidate m arguments w = (some (plan, values), w') ∧
      plan.method = m ∧ w'.Collected e vs values) ∧
    (∀ d plan, Remembered d (some plan) → plan.method = m →
      arguments.length = plan.argumentCount →
      (plan.Rereads source → ∃ values w', plan.replay arguments w = (.ok values, w') ∧
        w'.Collected e vs values) ∧
      (¬ plan.Rereads source → ∃ w', plan.replay arguments w = (.error (.invalid 1), w'))) ∧
    ∀ ref d target first w₁, w.session?.isSome = true →
      (collectReleased w).2.dispatchers.get? ref.index = some d → d.candidates = [m] →
      Remembered d d.plan → findTarget d (collectReleased w).2 = .ok (target, first) w₁ →
      w.machine.valuesFrom first = arguments →
      (d.Rereads arguments source → ∃ plan values w', plan.method = m ∧
        (w'.atInvocation target).Collected e vs values ∧
        ∀ E, dispatch E ref w = finishDispatch E ref d plan target values w') ∧
      (¬ d.Rereads arguments source → ∃ w', ∀ E, dispatch E ref w =
        raiseCause (.invalidArgument d.callable 1) w') := by
  have htakes : e.Takes vs := .of_checkType hscalar hvs
  refine ⟨fun v hv => htakes.asType_eq hv, hoffers.tried hcollects htakes hdefault,
    fun d plan => hoffers.replay_remembered hcollects htakes hdefault, ?_⟩
  intro ref d target first w₁ hsession hd hsingle hplan htarget harguments
  subst harguments
  exact hoffers.called hcollects htakes ref first hdefault hsession hd hsingle hplan htarget

/-- A method that collects characters. -/
def spellMethod : Method where
  name := "spell"
  declaringType := "Demo.Words"
  params := [⟨.array .char, .input, none, true⟩]
  ret := .void
  body := some (.statements [])

/-- Its plan for a run of characters. -/
def spellPlan (count : Nat) : Plan where
  method := spellMethod
  template := [.null]
  slots := [⟨0, 0, .run .char (List.replicate count (.scalar .char))⟩]
  outSlots := []
  returnsVoid := true
  argumentCount := count

def spellDispatcher (count : Nat) : Dispatcher where
  name := "spell"
  cls := { name := "Demo.Words" }
  binding := .static
  candidates := [spellMethod]
  plan := some (spellPlan count)

/-- A table is about to be passed to the dispatcher, whose last call was with a run. -/
def spellWorld (count : Nat) (argument : Value) (table : Table) : World where
  tables := ⟨#[some {}, some table]⟩
  machine := {
    id := 0, registry := ⟨0⟩, globals := ⟨0⟩, appData := .session, stack := #[argument]
    session := some { id := 0, options := {}, adapters := .build, objects := ⟨0⟩ } }
  dispatchers := Store.add {} (spellDispatcher count)

theorem spellDispatcher_hasDefaults (count : Nat) (w : World) :
    (spellDispatcher count).HasDefaults w := by
  intro m hm p hp v hv
  obtain rfl := List.mem_singleton.mp hm
  obtain rfl := List.mem_singleton.mp hp
  cases hv

theorem spellPlan_remembered (count : Nat) :
    Remembered (spellDispatcher count) (some (spellPlan 1)) ∧
      Remembered (spellDispatcher count) (some (spellPlan 2)) :=
  ⟨.prepared .none (joinWorld_sound "x") (spellDispatcher_hasDefaults count _)
      (show prepare (spellDispatcher count) none [.text "h"] (joinWorld "x") =
        (.ok (spellPlan 1, [.object ⟨0⟩]), _) from rfl),
    .prepared .none (joinWorld_sound "x") (spellDispatcher_hasDefaults count _)
      (show prepare (spellDispatcher count) none [.text "h", .text "i"] (joinWorld "x") =
        (.ok (spellPlan 2, [.object ⟨0⟩]), _) from rfl)⟩

/-- After a run of two characters, a table is collected as the run of its items would be. -/
theorem table_collected_after_run : ∃ plan values w', plan.method = spellMethod ∧
    (∃ o, values = [.object o] ∧
      (w'.atInvocation none).HoldsArray o .char [.char 'o', .char 'k']) ∧
    ∀ E, dispatch E ⟨0⟩ (spellWorld 2 (.table ⟨1⟩)
        ((({} : Table).setInt 1 (.text "o")).1.setInt 2 (.text "k")).1) =
      finishDispatch E ⟨0⟩ (spellDispatcher 2) plan none values w' := by
  let table : Table := ((({} : Table).setInt 1 (.text "o")).1.setInt 2 (.text "k")).1
  let w := spellWorld 2 (.table ⟨1⟩) table
  have hlists : table.Lists [.text "o", .text "k"] :=
    (Table.lists_empty.append (by decide) (v := .text "o") rfl).append (by decide) rfl
  have hoffers : w.Offers .char [.text "o", .text "k"] [.table ⟨1⟩]
      (.single (.arrayTable .char)) :=
    .table ⟨1⟩ ⟨⟨1, rfl⟩, nofun, _, rfl, hlists⟩
  obtain ⟨-, -, -, hcall⟩ := run_and_table_alike w spellMethod _ .char [.text "o", .text "k"]
    [.table ⟨1⟩] _ ⟨rfl, nofun, rfl, rfl⟩ rfl (by decide +kernel) hoffers nofun
  obtain ⟨hagain, -⟩ := hcall ⟨0⟩ (spellDispatcher 2) none 1 _ rfl rfl rfl
    (spellPlan_remembered 2).2 rfl rfl
  have hrereads : (spellDispatcher 2).Rereads [.table ⟨1⟩] (.single (.arrayTable .char)) := by
    intro plan hplan hcount
    cases hplan
    cases hcount
  obtain ⟨plan, values, w', hmethod, hcollected, hdispatch⟩ := hagain hrereads
  exact ⟨plan, values, w', hmethod, hcollected, hdispatch⟩

/-- After a call with a character, another character is collected, and a fresh table that holds it
is turned down. And without arguments a default stands in for the empty array. -/
theorem table_turned_down_after_run :
    Remembered (spellDispatcher 1) (spellDispatcher 1).plan ∧
    (∃ w', prepareDispatch ⟨0⟩ (spellWorld 1 (.text "x") {}) =
        .ok (spellDispatcher 1, spellPlan 1, none, [.object ⟨0⟩]) w' ∧
      w'.HoldsArray ⟨0⟩ .char [.char 'x']) ∧
    (∃ w', ∀ E, dispatch E ⟨0⟩ (spellWorld 1 (.table ⟨1⟩) (({} : Table).setInt 1 (.text "x")).1) =
      raiseCause (.invalidArgument (spellDispatcher 1).callable 1) w') ∧
    (∃ plan w', tryCandidate
        { spellMethod with params := [⟨.array .char, .input, some .null, true⟩] } []
        (spellWorld 1 .nil {}) = (some (plan, [.null]), w')) := by
  refine ⟨(spellPlan_remembered 1).1, ⟨_, rfl, _, rfl⟩, ?_, ⟨_, _, rfl⟩⟩
  let table : Table := (({} : Table).setInt 1 (.text "x")).1
  let w := spellWorld 1 (.table ⟨1⟩) table
  have hlists : table.Lists [.text "x"] :=
    Table.lists_empty.append (by decide) (v := .text "x") rfl
  have hoffers : w.Offers .char [.text "x"] [.table ⟨1⟩] (.single (.arrayTable .char)) :=
    .table ⟨1⟩ ⟨⟨1, rfl⟩, nofun, _, rfl, hlists⟩
  have hother : ¬ (spellDispatcher 1).Rereads [.table ⟨1⟩] (.single (.arrayTable .char)) :=
    fun h => nomatch h _ rfl rfl rfl
  have htakes : HostType.char.Takes [.text "x"] :=
    .of_checkType (w := w) rfl (by decide +kernel)
  have hcollects : spellMethod.Collects ⟨.array .char, .input, none, true⟩ .char :=
    ⟨rfl, nofun, rfl, rfl⟩
  exact (hoffers.called hcollects htakes ⟨0⟩ 1 nofun rfl rfl rfl (spellPlan_remembered 1).1 rfl).2
    hother

end ScriptBridge
