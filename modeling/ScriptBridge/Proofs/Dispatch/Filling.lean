import ScriptBridge.Bridge.Matching
import ScriptBridge.Proofs.Conversion.Reading

/-!
# Plans fit their methods

A plan that matching the parameters of a method gives has a value for each parameter. Where a slot
fills the parameter its source was chosen for the type of the parameter; where none does the value
is the default of the parameter, or the parameter is an output.
-/

namespace ScriptBridge

/-! ## What a plan may hold for a parameter -/

/-- The source was chosen for the type of the parameter. -/
def Param.Accepts (p : Param) : ArgumentSource → Prop
  | .single c => c.Reads p.type
  | .run e cs => p.element? = some e ∧ ∀ c ∈ cs, c.Reads e
  | .emptyArray e => p.variadic = true ∧ p.element? = some e

/-- What a parameter gets that no argument fills. -/
def Param.Presets (p : Param) (v : HostValue) : Prop :=
  p.default = some v ∨ p.mode = .output ∧ v = p.type.defaultValue

/-- Values and slots for a list of parameters. -/
structure Fills (template : List HostValue) (slots : List ArgumentSlot) (params : List Param) :
    Prop where
  length : template.length = params.length
  accepts : ∀ s ∈ slots, ∃ p, params[s.param]? = some p ∧ p.Accepts s.source
  distinct : slots.Pairwise fun s s' => s.param < s'.param
  presets : ∀ i p v, params[i]? = some p → template[i]? = some v →
    (∀ s ∈ slots, s.param ≠ i) → p.Presets v
  defaults : ∀ v ∈ template, v.refs = [] ∨ ∃ p ∈ params, p.default = some v

/-- The plan was made for the method. -/
structure Plan.Fits (plan : Plan) (m : Method) : Prop where
  method : plan.method = m
  fills : Fills plan.template plan.slots m.params

theorem Param.type_of_element? {p : Param} {e : HostType} (h : p.element? = some e) :
    p.type = .array e := by
  unfold element? at h
  split at h
  · rename_i ht
    cases h
    exact ht
  · cases h

theorem HostType.defaultValue_refs (t : HostType) : t.defaultValue.refs = [] := by
  cases t <;> rfl

namespace Fills

variable {template : List HostValue} {slots : List ArgumentSlot} {params : List Param} {p : Param}

theorem nil : Fills [] [] [] where
  length := rfl
  accepts _ h := absurd h List.not_mem_nil
  distinct := .nil
  presets _ _ _ h := by cases h
  defaults _ h := absurd h List.not_mem_nil

theorem slot_lt (h : Fills template slots params) {s : ArgumentSlot} (hs : s ∈ slots) :
    s.param < params.length := by
  obtain ⟨p, hp, -⟩ := h.accepts s hs
  exact (List.getElem?_eq_some_iff.mp hp).1

/-- One more parameter, without a slot. -/
theorem preset (h : Fills template slots params) {v : HostValue} (hv : p.Presets v)
    (hrefs : v.refs = [] ∨ p.default = some v) :
    Fills (template ++ [v]) slots (params ++ [p]) where
  length := by rw [List.length_append, List.length_append, h.length]; rfl
  accepts s hs := by
    obtain ⟨q, hq, hs'⟩ := h.accepts s hs
    exact ⟨q, List.getElem?_append_left (h.slot_lt hs) ▸ hq, hs'⟩
  distinct := h.distinct
  presets i q x hq hx hslots := by
    by_cases hi : i < params.length
    · rw [List.getElem?_append_left hi] at hq
      rw [List.getElem?_append_left (h.length ▸ hi)] at hx
      exact h.presets i q x hq hx hslots
    · rw [List.getElem?_append_right (Nat.le_of_not_lt hi)] at hq
      rw [List.getElem?_append_right (h.length ▸ Nat.le_of_not_lt hi), h.length] at hx
      cases hk : i - params.length with
      | zero =>
        rw [hk] at hq hx
        cases hq
        cases hx
        exact hv
      | succ k =>
        rw [hk] at hq
        cases hq
  defaults x hx := by
    obtain hx | hx := List.mem_append.mp hx
    · refine (h.defaults x hx).imp_right ?_
      rintro ⟨q, hq, hd⟩
      exact ⟨q, List.mem_append_left _ hq, hd⟩
    · obtain rfl := List.mem_singleton.mp hx
      exact hrefs.imp_right fun hd => ⟨p, List.mem_append_right _ List.mem_cons_self, hd⟩

/-- One more parameter, with a slot. -/
theorem slot (h : Fills template slots params) {source : ArgumentSource}
    (hsource : p.Accepts source) (offset : Nat) :
    Fills (template ++ [p.type.defaultValue]) (slots ++ [⟨template.length, offset, source⟩])
      (params ++ [p]) where
  length := by rw [List.length_append, List.length_append, h.length]; rfl
  accepts s hs := by
    obtain hs | hs := List.mem_append.mp hs
    · obtain ⟨q, hq, hs'⟩ := h.accepts s hs
      exact ⟨q, List.getElem?_append_left (h.slot_lt hs) ▸ hq, hs'⟩
    · obtain rfl := List.mem_singleton.mp hs
      refine ⟨p, ?_, hsource⟩
      rw [h.length, List.getElem?_append_right (Nat.le_refl _), Nat.sub_self]
      rfl
  distinct := by
    refine List.pairwise_append.mpr ⟨h.distinct, List.pairwise_singleton _ _, fun s hs s' hs' => ?_⟩
    obtain rfl := List.mem_singleton.mp hs'
    exact h.length ▸ h.slot_lt hs
  presets i q x hq hx hslots := by
    have hi : i < params.length := by
      have hlt := (List.getElem?_eq_some_iff.mp hq).1
      rw [List.length_append] at hlt
      refine Nat.lt_of_le_of_ne (Nat.lt_succ_iff.mp hlt) fun he => ?_
      exact hslots _ (List.mem_append_right _ List.mem_cons_self) (h.length.trans he.symm)
    rw [List.getElem?_append_left hi] at hq
    rw [List.getElem?_append_left (h.length ▸ hi)] at hx
    exact h.presets i q x hq hx fun s hs => hslots s (List.mem_append_left _ hs)
  defaults x hx := by
    obtain hx | hx := List.mem_append.mp hx
    · refine (h.defaults x hx).imp_right ?_
      rintro ⟨q, hq, hd⟩
      exact ⟨q, List.mem_append_left _ hq, hd⟩
    · obtain rfl := List.mem_singleton.mp hx
      exact .inl p.type.defaultValue_refs

end Fills

/-! ## Filling the parameters -/

theorem ensures_matchRun (e : HostType) (arguments : List Value) :
    Ensures (matchRun e arguments) fun cs => ∀ c ∈ cs, c.Reads e := by
  induction arguments with
  | nil => exact .pure fun _ h => absurd h List.not_mem_nil
  | cons v rest ih =>
    refine Ensures.bind (chooses_checkType e v) fun c hc => ?_
    cases c with
    | none => exact .pure fun _ h => absurd h List.not_mem_nil
    | some c =>
      refine ih.bind fun cs hcs => .pure fun c' hc' => ?_
      obtain rfl | hc' := List.mem_cons.mp hc'
      · exact hc _ rfl
      · exact hcs c' hc'

/-- What a variadic parameter accepts. -/
theorem ensures_matchVariadic {p : Param} {e : HostType} (he : p.element? = some e)
    (rest : List Value) :
    Ensures (matchVariadic e rest) fun r => ∀ s n, r = some (s, n) → p.Accepts s := by
  have htype : p.type.unwrapNullable = .array e := by
    rw [Param.type_of_element? he]
    rfl
  have htable : Ensures (pure (some (ArgumentSource.single (.arrayTable e), 1)) : Action _)
      fun r => ∀ s n, r = some (s, n) → p.Accepts s := by
    refine .pure fun s n h => ?_
    cases h
    exact .arrayTable htype
  have hnothing : Ensures (pure none : Action (Option (ArgumentSource × Nat)))
      fun r => ∀ s n, r = some (s, n) → p.Accepts s :=
    .pure fun _ _ h => nomatch h
  have hrun (cs : List Conversion) (hcs : ∀ c ∈ cs, c.Reads e) :
      Ensures (pure (some (ArgumentSource.run e cs, cs.length)) : Action _)
        fun r => ∀ s n, r = some (s, n) → p.Accepts s := by
    refine .pure fun s n h => ?_
    cases h
    exact ⟨he, hcs⟩
  -- A run is tried when there is no table, and when the table does not convert as a whole.
  unfold matchVariadic
  cases rest.head? with
  | some v =>
    refine (itemsConvert_ensures (tableToArray_reads e) v).bind fun whole _ => ?_
    dsimp only
    split
    · exact htable
    · refine (ensures_matchRun e rest).bind fun cs hcs => ?_
      cases cs with
      | nil => exact hnothing
      | cons c cs => exact hrun _ hcs
  | none =>
    dsimp only
    rw [pure_bind, if_neg Bool.false_ne_true]
    refine (ensures_matchRun e rest).bind fun cs hcs => ?_
    cases cs with
    | nil => exact hnothing
    | cons c cs => exact hrun _ hcs

namespace Filling

variable {f g : Filling} {params : List Param} {p : Param}

/-- The filling has values and slots for the parameters. -/
def Fits (f : Filling) (params : List Param) : Prop := Fills f.template f.slots params

theorem Fits.output (h : f.Fits params) (hp : p.mode = .output) :
    (f.output p).Fits (params ++ [p]) :=
  h.preset (.inr ⟨hp, rfl⟩) (.inl p.type.defaultValue_refs)

theorem Fits.default (h : f.Fits params) {v : HostValue} (hp : p.default = some v) :
    (f.fixed v).Fits (params ++ [p]) :=
  h.preset (.inl hp) (.inr hp)

theorem Fits.slot (h : f.Fits params) {source : ArgumentSource} (hp : p.Accepts source)
    (count : Nat) : (f.slot p source count).Fits (params ++ [p]) :=
  Fills.slot h hp _

theorem Fits.single (h : f.Fits params) {c : Conversion} (hc : c.Reads p.type) :
    (f.single p c).Fits (params ++ [p]) := by
  have haccepts : p.Accepts (.single c) := hc
  have hs : (f.slot p (.single c) 1).Fits (params ++ [p]) := h.slot haccepts 1
  unfold Filling.single
  dsimp only
  split
  · exact hs
  · exact hs

theorem Fits.missing (h : f.Fits params) (hg : fillMissing f p = some g) :
    g.Fits (params ++ [p]) := by
  unfold fillMissing at hg
  cases hd : p.default with
  | some v =>
    rw [hd] at hg
    cases hg
    exact h.default hd
  | none =>
    rw [hd] at hg
    dsimp only at hg
    split at hg
    · rename_i hvariadic
      obtain ⟨e, he, rfl⟩ := Option.map_eq_some_iff.mp hg
      have haccepts : p.Accepts (.emptyArray e) := ⟨hvariadic, he⟩
      exact h.slot haccepts 0
    · cases hg

end Filling

theorem ensures_fillParam (arguments : List Value) {f : Filling} {params : List Param}
    (h : f.Fits params) (p : Param) :
    Ensures (fillParam arguments f p) fun r => ∀ g, r = some g → g.Fits (params ++ [p]) := by
  unfold fillParam
  split
  · rename_i hmode
    refine .pure fun g hg => ?_
    cases hg
    exact h.output (beq_iff_eq.mp hmode)
  · cases arguments.drop f.cursor with
    | nil => exact .pure fun g hg => h.missing hg
    | cons v rest =>
      refine Ensures.bind (chooses_checkType p.type v) fun c hc => ?_
      cases c with
      | some c =>
        refine .pure fun g hg => ?_
        cases hg
        exact h.single (hc c rfl)
      | none =>
        have hdefault : Ensures (pure (fillDefault f p) : Action _)
            fun r => ∀ g, r = some g → g.Fits (params ++ [p]) := by
          refine .pure fun g hg => ?_
          obtain ⟨v, hv, rfl⟩ := Option.map_eq_some_iff.mp hg
          exact h.default hv
        dsimp only
        split
        · rename_i he
          refine (ensures_matchVariadic he (v :: rest)).bind fun r hr => ?_
          cases r with
          | some found =>
            refine .pure fun g hg => ?_
            cases hg
            exact h.slot (hr _ _ rfl) _
          | none => exact hdefault
        · exact hdefault

theorem ensures_fillParams (arguments : List Value) (rest : List Param) {f : Filling}
    {params : List Param} (h : f.Fits params) :
    Ensures (fillParams arguments rest f) fun r => ∀ g, r = some g → g.Fits (params ++ rest) := by
  induction rest generalizing f params with
  | nil =>
    refine .pure fun g hg => ?_
    cases hg
    rw [List.append_nil]
    exact h
  | cons p rest ih =>
    refine (ensures_fillParam arguments h p).bind fun r hr => ?_
    cases r with
    | none => exact .pure fun _ hg => nomatch hg
    | some g =>
      have hg := ih (hr g rfl)
      rw [List.append_assoc] at hg
      exact hg

/-- A plan that matching the parameters gives fits the method. -/
theorem ensures_matchParameters (m : Method) (arguments : List Value) :
    Ensures (matchParameters m arguments) fun r => ∀ plan, r = some plan →
      plan.Fits m ∧ plan.argumentCount = arguments.length := by
  have hfill : Ensures (fillParams arguments m.params {}) fun r =>
      ∀ g, r = some g → g.Fits ([] ++ m.params) := ensures_fillParams arguments m.params .nil
  refine hfill.bind fun r hr => ?_
  cases r with
  | none => exact .pure fun _ h => nomatch h
  | some f =>
    dsimp only
    split
    · exact .pure fun _ h => nomatch h
    · refine .pure fun plan h => ?_
      cases h
      exact ⟨⟨rfl, hr f rfl⟩, rfl⟩

end ScriptBridge
