import ScriptBridge.Bridge.Dispatch
import ScriptBridge.Proofs.Dispatch.Filling

/-!
# Replaying a plan gives typed arguments

A plan that fits its method gives one host value for each parameter, whatever values it is replayed
over. The values of slots conform to the types of their parameters, and all other values are what
the plan has for their parameters. What earlier slots made survives the later ones, since nothing
but the values under construction holds it.
-/

namespace ScriptBridge

/-! ## What a call hands over -/

/-- What a slot puts into a parameter: a value made of arguments, or a new array without items. -/
def World.Delivers (w : World) (isNew : ObjectRef → Prop) (p : Param) :
    ArgumentSource → HostValue → Prop
  | .emptyArray e, v => p.variadic = true ∧ p.type = .array e ∧ ∃ o cls, v = .object o ∧ isNew o ∧
      w.objects.get? o.index = some ⟨cls, .array e #[]⟩ ∧ cls.name = (HostType.array e).name
  | _, v => w.Conforms isNew p.type v

/-- Where a plan takes the value of a parameter from, if it takes it from arguments. -/
def Plan.source? (plan : Plan) (i : Nat) : Option ArgumentSource :=
  (plan.slots.find? (·.param == i)).map (·.source)

/-- What a parameter gets: what its slot puts there, or else what no argument fills. -/
def World.Receives (w : World) (isNew : ObjectRef → Prop) (p : Param) :
    Option ArgumentSource → HostValue → Prop
  | some source, v => w.Delivers isNew p source v
  | none, v => p.Presets v

/-- One value for each parameter of the method, each of them what the parameter may get. -/
structure World.Typed (w : World) (isNew : ObjectRef → Prop) (plan : Plan)
    (arguments : List HostValue) : Prop where
  length : arguments.length = plan.method.params.length
  receives : ∀ i p v, plan.method.params[i]? = some p → arguments[i]? = some v →
    w.Receives isNew p (plan.source? i) v

namespace World

variable {w w₁ w₂ : World} {N : List Ref} {p : Param} {isNew isNew' : ObjectRef → Prop}

theorem Delivers.later (hsession : w.machine.SessionLater w₁.machine)
    (hobjects : ∀ o, w.Exposes o ∨ isNew o → w₁.objects.get? o.index = w.objects.get? o.index)
    (hnew : ∀ o, isNew o → isNew' o) {source : ArgumentSource} {v : HostValue}
    (h : w.Delivers isNew p source v) : w₁.Delivers isNew' p source v := by
  cases source with
  | emptyArray e =>
    obtain ⟨hvariadic, htype, o, cls, rfl, ho, hcell, hname⟩ := h
    exact ⟨hvariadic, htype, o, cls, rfl, hnew o ho, hobjects o (.inr ho) ▸ hcell, hname⟩
  | _ => exact Conforms.later hsession hobjects hnew h

theorem Typed.later (hsession : w.machine.SessionLater w₁.machine)
    (hobjects : ∀ o, w.Exposes o ∨ isNew o → w₁.objects.get? o.index = w.objects.get? o.index)
    (hnew : ∀ o, isNew o → isNew' o) {plan : Plan} {arguments : List HostValue}
    (h : w.Typed isNew plan arguments) : w₁.Typed isNew' plan arguments where
  length := h.length
  receives i p v hp hv := by
    have h := h.receives i p v hp hv
    cases hs : plan.source? i with
    | none =>
      rw [hs] at h
      exact h
    | some source =>
      rw [hs] at h
      exact Delivers.later hsession hobjects hnew h

end World

/-! ## One slot -/

theorem extractRun_converted {w w₁ : World} {e : HostType} {N : List Ref} {done : List HostValue}
    (cs : List Conversion) (hcs : ∀ c ∈ cs, c.Reads e) (arguments : List Value) (position : Nat)
    (h : w.Converted e N done w₁) :
    match extractRun cs arguments position done w₁ with
    | (.ok items, w₂) => ∃ M, w.Converted e M items w₂
    | (.error _, w₂) => w.Makes [] [] w₂ := by
  induction cs generalizing arguments position w₁ N done with
  | nil => exact ⟨N, h⟩
  | cons c cs ih =>
    have hitem := extract_converts (hcs c List.mem_cons_self) (arguments.head?.getD .nil) w₁
      h.makes.sound
    unfold extractRun
    cases hr : c.extract (arguments.head?.getD .nil) w₁ with | mk r w₂
    rw [bind_of_eq hr]
    rw [hr] at hitem
    cases r with
    | some item =>
      obtain ⟨M, hmakes, hv⟩ := hitem
      exact ih (fun c hc => hcs c (List.mem_cons_of_mem _ hc)) _ _ (h.append hmakes hv)
    | none => exact (h.makes.before hitem).release

/-- A slot whose source the parameter accepts delivers, or leaves nothing new behind. -/
theorem slotExtract_delivers {s : ArgumentSlot} {p : Param} (hp : p.Accepts s.source)
    (arguments : List Value) {w : World} (hw : w.Sound) :
    match s.extract arguments w with
    | (.ok v, w₁) => ∃ N, w.Makes N v.refs w₁ ∧ w₁.Delivers (fun o => .object o ∈ N) p s.source v
    | (.error _, w₁) => w.Makes [] [] w₁ := by
  unfold ArgumentSlot.extract
  cases hs : s.source with
  | single c =>
    rw [hs] at hp
    have h := extract_converts hp ((arguments.drop s.offset).head?.getD .nil) w hw
    dsimp only
    cases hr : c.extract ((arguments.drop s.offset).head?.getD .nil) w with | mk r w₁
    rw [bind_of_eq hr]
    rw [hr] at h
    cases r with
    | some v => exact h
    | none => exact h
  | run e cs =>
    rw [hs] at hp
    have h := extractRun_converted cs hp.2 (arguments.drop s.offset) (s.offset + 1) (.nil hw e)
    dsimp only
    cases hr : extractRun cs (arguments.drop s.offset) (s.offset + 1) [] w with | mk r w₁
    rw [bind_of_eq hr]
    rw [hr] at h
    cases r with
    | ok items =>
      obtain ⟨N, hN⟩ := h
      refine ⟨_, hN.makes.newArray e fun _ hr => hr, ?_⟩
      have hconforms := hN.makes.newArray_conforms (e := e) hN.conforms
      rw [← Param.type_of_element? hp.1] at hconforms
      exact hconforms
    | error reason => exact h
  | emptyArray e =>
    rw [hs] at hp
    have hitems : ∀ r ∈ (#[] : Array HostValue).toList.flatMap HostValue.refs, r ∈ [] :=
      fun _ hr => hr
    have hmakes := (World.Makes.refl hw).newArray e hitems
    exact ⟨_, hmakes, hp.1, Param.type_of_element? hp.2, _, _, rfl, List.mem_cons_self,
      World.newArray_cell w e #[], hw.arrayClass_name e⟩

/-! ## All slots -/

/-- The values while the slots are run: those of the slots `past` are in place, and all others are
still the plan's own. -/
structure World.Replayed (w : World) (params : List Param) (template : List HostValue)
    (past : List ArgumentSlot) (N : List Ref) (done : List HostValue) (w₁ : World) : Prop where
  makes : ∃ refs, w.Makes N refs w₁
  made : ∀ v ∈ done, ∀ r ∈ v.refs, ¬ w₁.IsUnmade r
  length : done.length = template.length
  delivers : ∀ s ∈ past, ∀ p v, params[s.param]? = some p → done[s.param]? = some v →
    w₁.Delivers (fun o => .object o ∈ N) p s.source v
  others : ∀ i, (∀ s ∈ past, s.param ≠ i) → done[i]? = template[i]?

namespace World.Replayed

variable {w w₁ w₂ : World} {params : List Param} {template done : List HostValue}
variable {past : List ArgumentSlot} {N M : List Ref}

theorem nil (hw : w.Sound) (hmade : ∀ v ∈ template, ∀ r ∈ v.refs, ¬ w.IsUnmade r) :
    w.Replayed params template [] [] template w where
  makes := ⟨[], .refl hw⟩
  made := hmade
  length := rfl
  delivers _ h := absurd h List.not_mem_nil
  others _ _ := rfl

/-- One more slot. -/
theorem set (h : w.Replayed params template past N done w₁) {s : ArgumentSlot} {p : Param}
    {v : HostValue} (hpast : ∀ s' ∈ past, s'.param ≠ s.param) (hp : params[s.param]? = some p)
    (hmakes : w₁.Makes M v.refs w₂)
    (hv : w₂.Delivers (fun o => .object o ∈ M) p s.source v) :
    w.Replayed params template (past ++ [s]) (M ++ N) (done.set s.param v) w₂ where
  makes :=
    have ⟨_, hN⟩ := h.makes
    ⟨_, hN.trans hmakes⟩
  made x hx r hr := by
    obtain hx | rfl := List.mem_or_eq_of_mem_set hx
    · exact fun hu => h.made x hx r hr (hmakes.unmade hu)
    · exact (hmakes.free w₁.owns_nil hr).1
  length := by rw [List.length_set, h.length]
  delivers s' hs' q x hq hx := by
    obtain ⟨refs, hN⟩ := h.makes
    obtain hs' | hs' := List.mem_append.mp hs'
    · rw [List.getElem?_set_ne (Ne.symm (hpast s' hs'))] at hx
      exact (h.delivers s' hs' q x hq hx).later hmakes.session (fun _ ho => hN.objects hmakes ho)
        fun _ ho => List.mem_append_right _ ho
    · obtain rfl := List.mem_singleton.mp hs'
      rw [hp] at hq
      cases hq
      rw [List.getElem?_set_self'] at hx
      obtain ⟨_, -, rfl⟩ := Option.map_eq_some_iff.mp hx
      exact hv.later (.refl _) (fun _ _ => rfl) fun _ ho => List.mem_append_left _ ho
  others i hi := by
    rw [List.getElem?_set_ne (hi s (List.mem_append_right _ List.mem_cons_self))]
    exact h.others i fun s' hs' => hi s' (List.mem_append_left _ hs')

/-- Letting go of all values. -/
theorem release (h : w.Replayed params template past N done w₁) (hmakes : w₁.Makes [] [] w₂) :
    w.Later [] (ScriptBridge.release (done.flatMap HostValue.refs) none w₂).2 := by
  obtain ⟨refs, hN⟩ := h.makes
  refine ((hN.before hmakes).later [] w.owns_nil).trans
    (release_later hmakes.sound w₂.owns_nil _ none fun r hr => ⟨fun hu => ?_, List.not_mem_nil⟩)
  obtain ⟨v, hv, hr⟩ := List.mem_flatMap.mp hr
  exact h.made v hv r hr (hmakes.unmade hu)

end World.Replayed

theorem extractSlots_replayed {w w₁ : World} {params : List Param} {template : List HostValue}
    {past : List ArgumentSlot} {N : List Ref} {done : List HostValue} (arguments : List Value)
    (slots : List ArgumentSlot) (h : w.Replayed params template past N done w₁)
    (haccepts : ∀ s ∈ slots, ∃ p, params[s.param]? = some p ∧ p.Accepts s.source)
    (hdistinct : (past ++ slots).Pairwise fun s s' => s.param < s'.param) :
    match extractSlots arguments slots done w₁ with
    | (.ok values, w₂) => ∃ M, w.Replayed params template (past ++ slots) M values w₂
    | (.error _, w₂) => w.Later [] w₂ := by
  induction slots generalizing past N done w₁ with
  | nil =>
    rw [List.append_nil]
    exact ⟨N, h⟩
  | cons s rest ih =>
    obtain ⟨p, hp, hsource⟩ := haccepts s List.mem_cons_self
    have hsound : w₁.Sound := by
      obtain ⟨_, hN⟩ := h.makes
      exact hN.sound
    have hslot := slotExtract_delivers hsource arguments hsound
    unfold extractSlots
    cases hr : s.extract arguments w₁ with | mk r w₂
    rw [bind_of_eq hr]
    rw [hr] at hslot
    cases r with
    | ok v =>
      obtain ⟨M, hmakes, hv⟩ := hslot
      have hpast (s' : ArgumentSlot) (hs' : s' ∈ past) : s'.param ≠ s.param :=
        Nat.ne_of_lt ((List.pairwise_append.mp hdistinct).2.2 s' hs' s List.mem_cons_self)
      rw [List.append_cons] at hdistinct ⊢
      exact ih (h.set hpast hp hmakes hv) (fun s' hs' => haccepts s' (List.mem_cons_of_mem _ hs'))
        hdistinct
    | error reason => exact h.release hslot

/-! ## A whole plan -/

/-- Default values refer to cells that were made. -/
def Method.HasDefaults (m : Method) (w : World) : Prop :=
  ∀ p ∈ m.params, ∀ v, p.default = some v → ∀ r ∈ v.refs, ¬ w.IsUnmade r

theorem Method.HasDefaults.later {m : Method} {w w₁ : World} (h : m.HasDefaults w)
    (hlater : w.Later [] w₁) : m.HasDefaults w₁ :=
  fun p hp v hv r hr hu => h p hp v hv r hr (hlater.unmade r hu)

theorem Plan.source?_eq_some {plan : Plan} {i : Nat} {source : ArgumentSource}
    (h : plan.source? i = some source) : ∃ s ∈ plan.slots, s.param = i ∧ s.source = source := by
  obtain ⟨s, hs, rfl⟩ := Option.map_eq_some_iff.mp h
  have hi := @List.find?_some _ (fun s : ArgumentSlot => s.param == i) _ _ hs
  exact ⟨s, List.mem_of_find?_eq_some hs, beq_iff_eq.mp hi, rfl⟩

theorem Plan.source?_eq_none {plan : Plan} {i : Nat} (h : plan.source? i = none) :
    ∀ s ∈ plan.slots, s.param ≠ i := by
  intro s hs hi
  have hnone := List.find?_eq_none.mp (Option.map_eq_none_iff.mp h) s hs
  exact hnone (beq_iff_eq.mpr hi)

/-- After all slots were run the values are what the parameters may get. -/
theorem World.Replayed.typed {w w₁ : World} {plan : Plan} {m : Method} {N : List Ref}
    {values : List HostValue} (hplan : plan.Fits m)
    (h : w.Replayed m.params plan.template plan.slots N values w₁) :
    w₁.Typed (fun o => .object o ∈ N) plan values where
  length := by rw [h.length, hplan.fills.length, hplan.method]
  receives i p v hp hv := by
    rw [hplan.method] at hp
    cases hs : plan.source? i with
    | some source =>
      obtain ⟨s, hmem, rfl, rfl⟩ := Plan.source?_eq_some hs
      exact h.delivers s hmem p v hp hv
    | none =>
      have hnone := Plan.source?_eq_none hs
      rw [h.others i hnone] at hv
      exact hplan.fills.presets i p v hp hv hnone

/-- An attempt at preparing a call: typed arguments, or whatever was made was let go of. -/
structure World.Prepared (w : World) (plan : Plan) (arguments : List HostValue) (w' : World) :
    Prop where
  later : w.Later [] w'
  typed : w'.Typed (fun o => w.objects.next ≤ o.index) plan arguments

theorem World.Prepared.after {w w₁ w₂ : World} {plan : Plan} {arguments : List HostValue}
    (hlater : w.Later [] w₁) (h : w₁.Prepared plan arguments w₂) :
    w.Prepared plan arguments w₂ where
  later := hlater.trans h.later
  typed := h.typed.later (.refl _) (fun _ _ => rfl) fun o => hlater.unmade (.object o)

/-- A plan that fits its method gives typed arguments, whatever it is replayed over. -/
theorem replay_prepared {plan : Plan} {m : Method} (hplan : plan.Fits m) (arguments : List Value)
    {w : World} (hw : w.Sound) (hdefaults : m.HasDefaults w) :
    match plan.replay arguments w with
    | (.ok values, w₁) => w.Prepared plan values w₁
    | (.error _, w₁) => w.Later [] w₁ := by
  have hmade (v : HostValue) (hv : v ∈ plan.template) (r : Ref) (hr : r ∈ v.refs) :
      ¬ w.IsUnmade r := by
    obtain hrefs | ⟨p, hp, hd⟩ := hplan.fills.defaults v hv
    · rw [hrefs] at hr
      exact absurd hr List.not_mem_nil
    · exact hdefaults p hp v hd r hr
  unfold Plan.replay
  by_cases hcount : (arguments.length != plan.argumentCount) = true
  · rw [if_pos hcount]
    exact .refl hw w.owns_nil
  · rw [if_neg hcount]
    have hnil : w.Replayed m.params plan.template [] [] plan.template w := .nil hw hmade
    have h := extractSlots_replayed arguments plan.slots hnil hplan.fills.accepts
      hplan.fills.distinct
    show match extractSlots arguments plan.slots plan.template w with
      | (.ok values, w₁) => w.Prepared plan values w₁
      | (.error _, w₁) => w.Later [] w₁
    cases hr : extractSlots arguments plan.slots plan.template w with | mk r w₁
    rw [hr] at h
    cases r with
    | error reason => exact h
    | ok values =>
      obtain ⟨N, hN⟩ := h
      obtain ⟨refs, hmakes⟩ := hN.makes
      exact ⟨hmakes.later [] w.owns_nil, (hN.typed hplan).later (.refl _) (fun _ _ => rfl)
        fun o ho => hmakes.fresh _ ho⟩

/-! ## Resolving anew -/

/-- The outcome of looking for a candidate. -/
def World.Resolves (w : World) (candidates : List Method)
    (r : Option (Plan × List HostValue) × World) : Prop :=
  match r.1 with
  | some (plan, arguments) => plan.method ∈ candidates ∧ plan.Fits plan.method ∧
      w.Prepared plan arguments r.2
  | none => w.Later [] r.2

theorem tryCandidate_resolves {m : Method} (arguments : List Value) {w : World} (hw : w.Sound)
    (hdefaults : m.HasDefaults w) : w.Resolves [m] (tryCandidate m arguments w) := by
  obtain ⟨hmakes, hplan⟩ := ensures_matchParameters m arguments w hw
  unfold tryCandidate
  cases hm : matchParameters m arguments w with | mk found w₁
  rw [bind_of_eq hm]
  rw [hm] at hmakes hplan
  have hlater : w.Later [] w₁ := hmakes.later [] w.owns_nil
  cases found with
  | none => exact hlater
  | some plan =>
    have hfits : plan.Fits m := (hplan plan rfl).1
    have h := replay_prepared hfits arguments hlater.sound (hdefaults.later hlater)
    dsimp only
    cases hr : plan.replay arguments w₁ with | mk r w₂
    rw [bind_of_eq hr]
    rw [hr] at h
    cases r with
    | ok values =>
      obtain rfl := hfits.method
      exact ⟨List.mem_cons_self, hfits, h.after hlater⟩
    | error reason => exact hlater.trans h

theorem resolve_resolves (candidates : List Method) (arguments : List Value) {w : World}
    (hw : w.Sound) (hdefaults : ∀ m ∈ candidates, m.HasDefaults w) :
    w.Resolves candidates (resolve candidates arguments w) := by
  induction candidates generalizing w with
  | nil => exact .refl hw w.owns_nil
  | cons m rest ih =>
    have h := tryCandidate_resolves arguments hw (hdefaults m List.mem_cons_self)
    unfold resolve
    cases hr : tryCandidate m arguments w with | mk found w₁
    rw [bind_of_eq hr]
    rw [hr] at h
    cases found with
    | some found =>
      obtain ⟨hmem, hfits, hprepared⟩ := h
      exact ⟨List.mem_cons.mpr (.inl (List.mem_singleton.mp hmem)), hfits, hprepared⟩
    | none =>
      have hlater : w.Later [] w₁ := h
      have hrest := ih hlater.sound fun m hm =>
        (hdefaults m (List.mem_cons_of_mem _ hm)).later hlater
      unfold World.Resolves at hrest ⊢
      dsimp only
      cases hfound : (resolve rest arguments w₁).1 with
      | none =>
        rw [hfound] at hrest
        exact hlater.trans hrest
      | some found =>
        rw [hfound] at hrest
        exact ⟨List.mem_cons_of_mem _ hrest.1, hrest.2.1, hrest.2.2.after hlater⟩

end ScriptBridge
