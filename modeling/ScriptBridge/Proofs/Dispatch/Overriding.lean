import ScriptBridge.Proofs.Bridge.Isolation
import ScriptBridge.Proofs.Dispatch.Repeating
import ScriptBridge.Proofs.Dispatch.Target

/-!
# Methods that hide those of a base

The methods of a name are tried nearest class first. A method that a nearer class declares anew,
with the same parameters, comes before the one of the base, and it accepts whatever that accepts. So
no call selects the one of the base, whatever plans earlier calls left.

1. `Catalog.Overrides`: what hides what. The hidden method is never the first of the candidates with
   its parameters (`not_leads_of_overrides`).
2. `FirstAccepts.leads`: the candidate that is selected is the first one with its parameters, since
   trying another with the same ones comes to the same.
3. `Planned`: the plans of earlier calls. All of them are of such candidates.
4. `World.Wraps`: dispatchers that were looked up or bound, and a call of one.
-/

namespace ScriptBridge

variable {w w' w₁ w₂ : World} {arguments : List Value} {candidates : List Method}
variable {m m' : Method} {plan : Plan} {values : List HostValue} {d : Dispatcher}

/-! ## What hides what -/

/-- The method is the first of the candidates that has its parameters. -/
def Method.Leads (m : Method) (candidates : List Method) : Prop :=
  candidates.find? (·.params == m.params) = some m

namespace Catalog

variable {c : Catalog} {cls : Class} {name : String} {isStatic : Bool}

/-- The class so many bases up. -/
def ancestor? (c : Catalog) : Nat → Class → Option Class
  | 0, cls => some cls
  | n + 1, cls => (cls.base.bind c.find?).bind (c.ancestor? n)

/-- No class is among its own bases. -/
def Acyclic (c : Catalog) (cls : Class) : Prop :=
  ∀ i j d e, c.ancestor? i cls = some d → c.ancestor? j cls = some e → d.name = e.name → i = j

/-- The first method is declared nearer to the class than the second one, for the same name, static
as that is or not, and with the same parameters. -/
def Overrides (c : Catalog) (cls : Class) (name : String) (m' m : Method) : Prop :=
  ∃ i j near base, i < j ∧ c.ancestor? i cls = some near ∧ c.ancestor? j cls = some base ∧
    m' ∈ near.methodsNamed name ∧ m ∈ base.methodsNamed name ∧
    m'.isStatic = m.isStatic ∧ m'.params = m.params

theorem basesFrom_getElem? (limit i : Nat) (cls : Class) :
    (c.basesFrom limit cls)[i]? = if i < limit then c.ancestor? i cls else none := by
  induction limit generalizing i cls with
  | zero => rfl
  | succ limit ih =>
    unfold basesFrom
    cases i with
    | zero => rfl
    | succ i =>
      rw [List.getElem?_cons_succ]
      unfold ancestor?
      cases cls.base.bind c.find? with
      | none => simp
      | some parent => simp [ih]

theorem DeclaresOwn.ancestor? (hc : c.DeclaresOwn) (hcls : cls.DeclaresOwn) {i : Nat} {d : Class}
    (h : c.ancestor? i cls = some d) : d.DeclaresOwn := by
  induction i generalizing cls with
  | zero =>
    cases h
    exact hcls
  | succ i ih =>
    obtain ⟨parent, hparent, hd⟩ := Option.bind_eq_some_iff.mp h
    obtain ⟨base, -, hfind⟩ := Option.bind_eq_some_iff.mp hparent
    exact ih (hc base parent hfind) hd

/-- A method of a name names its class. -/
theorem declaringType_of_methodsNamed {d : Class} (hd : d.DeclaresOwn)
    (hm : m ∈ d.methodsNamed name) : m.declaringType = d.name := by
  obtain ⟨member, hmember, hmethod⟩ := List.mem_filterMap.mp hm
  cases member with
  | method =>
    cases hmethod
    exact hd.methods m (List.mem_filter.mp hmember).1
  | _ => cases hmethod

theorem methodsOf_eq_flatMap : c.methodsOf cls name isStatic = (c.hierarchy cls).flatMap
    fun d => (d.methodsNamed name).filter (·.isStatic == isStatic) := by
  unfold methodsOf membersOf
  rw [List.filterMap_flatMap, List.filter_flatMap]
  rfl

/-- A method that is hidden is not the first one with its parameters. -/
theorem not_leads_of_overrides (hc : c.DeclaresOwn) (hcls : cls.DeclaresOwn)
    (hacyclic : c.Acyclic cls) (h : c.Overrides cls name m' m) :
    ¬ m.Leads (c.methodsOf cls name isStatic) := by
  obtain ⟨i, j, near, base, hij, hnear, hbase, hm', hm, hstatic, hparams⟩ := h
  intro hleads
  unfold Method.Leads at hleads
  have hkind := beq_iff_eq.mp (List.mem_filter.mp (List.mem_of_find?_eq_some hleads)).2
  rw [← hkind] at hleads
  rw [methodsOf_eq_flatMap, List.find?_flatMap] at hleads
  obtain ⟨before, d, after, hsplit, hfound, hnone⟩ := List.findSome?_eq_some_iff.mp hleads
  have hget (k : Nat) : (before ++ d :: after)[k]? =
      if k < walkLimit then c.ancestor? k cls else none := by
    rw [← hsplit]
    exact basesFrom_getElem? walkLimit k cls
  -- The method was found in a class of the name that declares it, which is the base.
  have hd := hget before.length
  rw [List.getElem?_append_right (Nat.le_refl _), Nat.sub_self, List.getElem?_cons_zero] at hd
  split at hd
  · rename_i hlimit
    have hown := (List.mem_filter.mp (List.mem_of_find?_eq_some hfound)).1
    have hname : d.name = base.name :=
      (declaringType_of_methodsNamed (hc.ancestor? hcls hd.symm) hown).symm.trans
        (declaringType_of_methodsNamed (hc.ancestor? hcls hbase) hm)
    have hj : before.length = j := hacyclic _ _ d base hd.symm hbase hname
    -- So the nearer class comes before it, and would have given its own method.
    have hbefore := hget i
    rw [if_pos (by omega), hnear, List.getElem?_append_left (by omega)] at hbefore
    have hnot := List.find?_eq_none.mp (hnone near (List.mem_of_getElem? hbefore)) m'
      (List.mem_filter.mpr ⟨hm', beq_iff_eq.mpr hstatic⟩)
    exact hnot (beq_iff_eq.mpr hparams)
  · cases hd

end Catalog

/-! ## The first candidate with its parameters -/

/-- What trying comes to once the parameters match. -/
def Plan.accept (plan : Plan) (arguments : List Value) :
    Action (Option (Plan × List HostValue)) := do
  match ← plan.replay arguments with
  | .ok converted => return some (plan, converted)
  | .error _ => return none

theorem Plan.accept_of_replay {plan plan' : Plan}
    (h : plan.replay arguments = plan'.replay arguments) (w : World) :
    (plan.accept arguments w).2 = (plan'.accept arguments w).2 ∧
      ((plan.accept arguments w).1 = none ↔ (plan'.accept arguments w).1 = none) := by
  unfold Plan.accept
  rw [h]
  cases hreplay : plan'.replay arguments w with | mk r w₁
  rw [bind_of_eq hreplay, bind_of_eq hreplay]
  cases r with
  | ok converted => exact ⟨rfl, nofun, nofun⟩
  | error reason => exact ⟨rfl, .rfl⟩

/-- Methods with the same parameters accept the same arguments. -/
theorem tryCandidate_of_params (hparams : m.params = m'.params) (arguments : List Value)
    (w : World) : (tryCandidate m arguments w).2 = (tryCandidate m' arguments w).2 ∧
      ((tryCandidate m arguments w).1 = none ↔ (tryCandidate m' arguments w).1 = none) := by
  unfold tryCandidate matchParameters
  rw [hparams, bind_assoc, bind_assoc]
  cases hfill : fillParams arguments m'.params {} w with | mk found w₁
  rw [bind_of_eq hfill, bind_of_eq hfill]
  cases found with
  | none => exact ⟨rfl, .rfl⟩
  | some f =>
    dsimp only
    cases hcursor : f.cursor != arguments.length with
    | true => exact ⟨rfl, .rfl⟩
    | false =>
      let plan (m : Method) : Plan := {
        method := m, template := f.template, slots := f.slots, outSlots := f.outSlots
        returnsVoid := m.ret == .void, argumentCount := arguments.length }
      have hsame : (plan m).replay arguments = (plan m').replay arguments := rfl
      rw [if_neg Bool.false_ne_true, if_neg Bool.false_ne_true]
      exact Plan.accept_of_replay hsame w₁

theorem Refuses.nextRef_le (h : Refuses arguments candidates w₁ w₂) :
    w₁.machine.nextRef ≤ w₂.machine.nextRef := by
  induction h with
  | nil => exact Int.le_refl _
  | @cons m rest w₁ w₂ w₃ first others ih =>
    have hfirst := (tidy_tryCandidate m arguments).ascends w₁
    rw [first] at hfirst
    exact Int.le_trans hfirst ih

section

variable {tables : Prop}

/-- A candidate that refused the arguments refuses them from then on, and leaves what the next one
looks at as it was. -/
theorem Refuses.repeats (hrefuses : Refuses arguments candidates w₁ w₂)
    (hdecides : ∀ m ∈ candidates, ∀ p ∈ m.params, ∀ v ∈ arguments,
      w.Decides tables (fun _ => True) p v)
    (hw : w.Between tables w₁) (hlimit : tables → w₂.machine.nextRef ≤ IntegerKind.i32.hi) :
    w.Between tables w₂ ∧ ∀ m ∈ candidates,
      w.Repeats tables (tryCandidate m arguments) (· = none) := by
  induction hrefuses with
  | nil => exact ⟨hw, nofun⟩
  | @cons m rest w₁ w₂ w₃ first others ih =>
    obtain ⟨r, b, -, -, htry⟩ := repeats_tryCandidate trivial (hdecides m List.mem_cons_self)
    have hfirst := htry w₁ hw fun ht => by
      rw [first]
      exact Int.le_trans others.nextRef_le (hlimit ht)
    rw [first] at hfirst
    obtain ⟨hnone, hbetween⟩ := hfirst
    rw [← hnone] at htry
    obtain ⟨hlast, hothers⟩ :=
      ih (fun m hm => hdecides m (List.mem_cons_of_mem _ hm)) hbetween hlimit
    refine ⟨hlast, fun m' hm' => ?_⟩
    obtain rfl | hm' := List.mem_cons.mp hm'
    · exact htry.mono fun _ hmap => Option.map_eq_none_iff.mp hmap
    · exact hothers m' hm'

/-- The candidate that is selected is the first one with its parameters. -/
theorem FirstAccepts.leads (h : FirstAccepts candidates arguments w₁ plan values w₂)
    (hdecides : ∀ m ∈ candidates, ∀ p ∈ m.params, ∀ v ∈ arguments,
      w.Decides tables (fun _ => True) p v)
    (hw : w.Between tables w₁) (hlimit : tables → w₂.machine.nextRef ≤ IntegerKind.i32.hi) :
    plan.method.Leads candidates := by
  obtain ⟨before, after, w₃, rfl, hrefuses, htry⟩ := h
  have hascends := (tidy_tryCandidate plan.method arguments).ascends w₃
  rw [htry] at hascends
  obtain ⟨hbetween, hrepeats⟩ := hrefuses.repeats
    (fun m hm => hdecides m (List.mem_append_left _ hm)) hw fun ht =>
      Int.le_trans hascends (hlimit ht)
  refine List.find?_eq_some_iff_append.mpr ⟨beq_self_eq_true _, before, after, rfl, fun m hm => ?_⟩
  rw [Bool.not_eq_true', beq_eq_false_iff_ne]
  -- An earlier one with the same parameters refused what is accepted.
  intro hparams
  obtain ⟨hworld, hnone⟩ := tryCandidate_of_params hparams arguments w₃
  rw [htry] at hworld hnone
  obtain ⟨hrefused, -⟩ := hrepeats m hm w₃ hbetween fun ht => by
    rw [hworld]
    exact hlimit ht
  cases hnone.mp hrefused

end

/-! ## Plans of earlier calls -/

namespace Dispatcher

/-- Where the arguments of a call begin: behind the target, if that is an argument too. -/
def first (d : Dispatcher) : Int := if d.binding == .onObject && d.bound.isNone then 2 else 1

/-- The arguments of a call. -/
def argumentsIn (d : Dispatcher) (w : World) : List Value := w.machine.valuesFrom d.first

end Dispatcher

/-- What it takes to read tables among the arguments of a call: memory is settled and the slots of
the registry table are in order, nothing is read out of that table, and numbers of references are in
range. -/
def World.ReadsTables (w : World) (d : Dispatcher) (cached : Option Plan) : Prop :=
  (∃ t, .table t ∈ d.argumentsIn w) → w.Steady ∧
    (∀ m ∈ d.candidates, ∀ p ∈ m.params, ∀ v ∈ d.argumentsIn w, w.ApartFor p v) ∧
    (prepare d cached (d.argumentsIn w) w).2.machine.nextRef ≤ IntegerKind.i32.hi

/-- The plans a dispatcher can have: none, or the plan of an earlier call, in whatever world and
with whatever arguments that was, prepared by the plan that was there before or anew. -/
inductive Planned (d : Dispatcher) : Option Plan → Prop where
  | none : Planned d none
  | called {cached : Option Plan} {w w' : World} {plan : Plan} {values : List HostValue}
      (before : Planned d cached) (sound : w.Sound) (defaults : d.HasDefaults w)
      (tables : w.ReadsTables d cached)
      (now : prepare d cached (d.argumentsIn w) w = (.ok (plan, values), w')) :
      Planned d (some plan)

theorem findTarget_first {found : Option ObjectRef × Int} (h : findTarget d w = .ok found w') :
    found.2 = d.first := by
  unfold findTarget at h
  unfold Dispatcher.first
  cases hbinding : d.binding != .onObject with
  | true =>
    rw [hbinding] at h
    cases h
    rw [beq_eq_false_iff_ne.mpr (bne_iff_ne.mp hbinding)]
    rfl
  | false =>
    rw [hbinding] at h
    rw [beq_iff_eq.mpr (bne_eq_false_iff_eq.mp hbinding)]
    cases hbound : d.bound with
    | some o =>
      rw [hbound] at h
      cases h
      rfl
    | none =>
      rw [hbound] at h
      dsimp only at h
      rw [if_neg Bool.false_ne_true, lift_bind, lift_bind] at h
      cases ho : (fittingObject? (valueAt 1 w).1 (.named d.cls.name) (valueAt 1 w).2).1 with
      | some o =>
        rw [ho] at h
        cases h
        rfl
      | none =>
        rw [ho] at h
        exact absurd h (raiseCause_ne_ok _ _)

/-- The values of a frame are on the stack. -/
theorem Machine.mem_stack_of_valuesFrom {m : Machine} {first : Int} {v : Value}
    (hv : v ∈ m.valuesFrom first) (hnil : v ≠ .nil) : v ∈ m.stack := by
  obtain ⟨k, -, rfl⟩ := List.mem_map.mp hv
  unfold value at hnil ⊢
  cases hslot : m.slot? (first + k) with
  | none =>
    rw [hslot] at hnil
    exact absurd rfl hnil
  | some p =>
    have hget : m.stack.getD p .nil ≠ .nil := by
      rw [hslot] at hnil
      exact hnil
    show m.stack.getD p .nil ∈ m.stack
    rw [Array.getD_eq_getD_getElem?] at hget ⊢
    cases hv : m.stack[p]? with
    | none =>
      rw [hv] at hget
      exact absurd rfl hget
    | some v => exact Array.mem_of_getElem? hv

section

variable {tables : Prop}

theorem World.Between.host (h : w.Between tables w₁) (hstep : w₁.HostStep w₂) :
    w.Between tables w₂ where
  serene ht :=
    have ⟨hundisturbed, hsteady⟩ := h.serene ht
    ⟨hundisturbed.trans hstep.undisturbed, (hstep.serene hsteady).steady⟩
  retains hnot := (h.retains hnot).trans (hstep.retains (h.retains hnot).made)

theorem legible_nil (w : World) : w.Legible tables .nil := ⟨nofun, fun _ => nofun⟩

/-- Replaying any plan leaves what is looked at as it was. -/
theorem World.Between.replay (h : w.Between tables w₁) (plan : Plan)
    (harguments : ∀ v ∈ arguments, w.Legible tables v)
    (hlimit : tables → (plan.replay arguments w₁).2.machine.nextRef ≤ IntegerKind.i32.hi) :
    w.Between tables (plan.replay arguments w₁).2 := by
  by_cases ht : tables
  · obtain ⟨hundisturbed, hsteady⟩ := h.serene ht
    have hserene := (tidy_replay plan arguments).serene w₁ hsteady (hlimit ht)
    exact ⟨fun _ => ⟨hundisturbed.trans hserene.undisturbed, hserene.steady⟩,
      fun hnot => absurd ht hnot⟩
  · have hregards (c : Conversion) {vs : List Value} (hvs : ∀ v ∈ vs, v ∈ arguments) :
        w.Regards tables (fun _ => True) c (vs.head?.getD .nil) := by
      have hv : w.Legible tables (vs.head?.getD .nil) := by
        cases vs with
        | nil => exact legible_nil w
        | cons v rest => exact harguments v (hvs v List.mem_cons_self)
      obtain ⟨b, hb⟩ := repeats_extract hv fun h => absurd h ht
      exact ⟨b, trivial, hb⟩
    have hrun (cs : List Conversion) {vs : List Value} (hvs : ∀ v ∈ vs, v ∈ arguments) :
        w.RegardsRun tables (fun _ => True) cs vs := by
      induction cs generalizing vs with
      | nil => exact trivial
      | cons c cs ih => exact ⟨hregards c hvs, ih fun v hv => hvs v (List.mem_of_mem_tail hv)⟩
    have hslots : ∀ s ∈ plan.slots, w.Supplies tables (fun _ => True) arguments s := by
      intro s _
      unfold World.Supplies World.Serves
      have hdrop : ∀ v ∈ arguments.drop s.offset, v ∈ arguments :=
        fun v hv => List.mem_of_mem_drop hv
      split
      · exact hregards _ hdrop
      · exact hrun _ hdrop
      · trivial
    obtain ⟨b, -, hextract⟩ := repeats_extractSlots trivial hslots
    unfold Plan.replay
    split
    · exact h
    · exact (hextract _ w₁ h fun h => absurd h ht).2

theorem World.Between.unhold (h : w.Between tables w₁) (plan : Plan) :
    w.Between tables (ScriptBridge.unhold plan.refs w₁).2 :=
  h.host (unhold_hostStep (hostOnly_plan plan) w₁)

theorem nextRef_unhold (plan : Plan) (w : World) :
    (unhold plan.refs w).2.machine.nextRef = w.machine.nextRef :=
  (unhold_hostStep (hostOnly_plan plan) w).nextRef

/-- A call that does not run by the plan of an earlier one leaves what is looked at as it was,
before candidates are tried. -/
theorem Dispatcher.PassesOver.between {cached : Option Plan}
    (h : d.PassesOver arguments w₁ cached w₂) (hw : w.Between tables w₁)
    (harguments : ∀ v ∈ arguments, w.Legible tables v)
    (hlimit : tables → w₂.machine.nextRef ≤ IntegerKind.i32.hi) : w.Between tables w₂ := by
  cases h with
  | unplanned => exact hw
  | @otherCount plan => exact hw.unhold plan
  | @unreadable plan position w₃ count replay =>
    have hreplay := hw.replay plan harguments fun ht => by
      rw [replay, ← nextRef_unhold plan]
      exact hlimit ht
    rw [replay] at hreplay
    exact hreplay.unhold plan

end

theorem FirstAccepts.nextRef_le (h : FirstAccepts candidates arguments w₁ plan values w₂) :
    w₁.machine.nextRef ≤ w₂.machine.nextRef := by
  obtain ⟨before, after, w₃, -, hrefuses, htry⟩ := h
  have hlast := (tidy_tryCandidate plan.method arguments).ascends w₃
  rw [htry] at hlast
  exact Int.le_trans hrefuses.nextRef_le hlast

/-- A call is prepared by the plan of an earlier one, or with the first candidate with its
parameters. -/
theorem prepare_leads {cached : Option Plan} (hw : w.Sound) (hdefaults : d.HasDefaults w)
    (hcached : ∀ plan, cached = some plan → plan.Suits d ∧ plan.method.Leads d.candidates)
    (htables : w.ReadsTables d cached)
    (now : prepare d cached (d.argumentsIn w) w = (.ok (plan, values), w')) :
    plan.method.Leads d.candidates := by
  unfold World.ReadsTables at htables
  rw [now] at htables
  have hselects := prepare_selects (d.argumentsIn w) hw hdefaults fun plan h => (hcached plan h).1
  rw [now] at hselects
  generalize hresult : (Except.ok (plan, values), w') = result at hselects
  cases hselects with
  | replayed remembered =>
    cases hresult
    exact (hcached plan remembered).2
  | unreadable => cases hresult
  | @first w₁ passed left first =>
    rw [← hresult] at first
    cases first with
    | @accepted _ _ w₂ first =>
      have hlegible (v : Value) (hv : v ∈ d.argumentsIn w) :
          w.Legible (∃ t, .table t ∈ d.argumentsIn w) v :=
        ⟨fun t ht => ⟨t, ht ▸ hv⟩, fun _ u hu => Machine.mem_stack_of_valuesFrom hv (hu ▸ nofun)⟩
      have hbetween := passed.between (.refl (fun ht => (htables ht).1) fun _ => hw.exposed)
        hlegible fun ht => Int.le_trans first.nextRef_le (htables ht).2.2
      exact first.leads (fun m hm p hp v hv => (hlegible v hv).decides fun ht =>
        (htables ht).2.1 m hm p hp v hv) hbetween fun ht => (htables ht).2.2

theorem Planned.remembered {cached : Option Plan} (h : Planned d cached) : Remembered d cached := by
  induction h with
  | none => exact .none
  | called _ sound defaults _ now ih => exact .prepared ih sound defaults now

/-- Every plan of a dispatcher is for the first candidate with its parameters. -/
theorem Planned.leads {cached : Option Plan} (h : Planned d cached) :
    ∀ plan, cached = some plan → plan.method.Leads d.candidates := by
  induction h with
  | none => exact nofun
  | called before sound defaults tables now ih =>
    intro plan hplan
    cases hplan
    exact prepare_leads sound defaults
      (fun plan h => ⟨before.remembered.suits plan h, ih plan h⟩) tables now

/-! ## Calls -/

/-- The world in which the arguments of a call are read. -/
def World.inCall (w : World) (ref : DispatcherRef) : World :=
  (takePlan ref (collectReleased w).2).2

/-- What a dispatcher was called with before, and what it is called with now, can be read. -/
structure Dispatcher.Callable (d : Dispatcher) (ref : DispatcherRef) (w : World) : Prop where
  defaults : d.HasDefaults w
  planned : Planned d d.plan
  tables : (w.inCall ref).ReadsTables d d.plan

/-- A call is prepared with the first candidate with its parameters. -/
theorem prepareDispatch_leads {ref : DispatcherRef} {target : Option ObjectRef} (hw : w.Sound)
    (hd : ∀ d, w.dispatchers.get? ref.index = some d → d.Callable ref w)
    (h : prepareDispatch ref w = .ok (d, plan, target, values) w') :
    w.dispatchers.get? ref.index = some d ∧ plan.method.Leads d.candidates := by
  obtain ⟨hfound, first, htarget, hprepare⟩ := prepareDispatch_ok h
  obtain rfl : first = d.first := findTarget_first htarget
  have hcollect : w.Later [] (collectReleased w).2 := harmless_collectReleased w [] hw w.owns_nil
  have hcell := hcollect.dispatchers _ _ hfound
  obtain ⟨hdefaults, hplanned, htables⟩ := hd d hcell
  have htaken := takePlan_eq hfound
  have hunmade (r : Ref) (hr : (w.inCall ref).IsUnmade r) : w.IsUnmade r := by
    refine hcollect.unmade r ?_
    unfold World.inCall at hr
    rw [htaken] at hr
    exact hr
  have hprepare : prepare d d.plan (d.argumentsIn (w.inCall ref)) (w.inCall ref) =
      (.ok (plan, values), w') := by
    unfold World.inCall Dispatcher.argumentsIn
    rw [htaken] at hprepare ⊢
    exact hprepare
  exact ⟨hcell, prepare_leads (takePlan_sound hcollect.sound hfound)
    (fun m hm p hp v hv r hr hu => hdefaults m hm p hp v hv r hr (hunmade r hu))
    (fun plan h => ⟨hplanned.remembered.suits plan h, hplanned.leads plan h⟩) htables hprepare⟩

variable {C : Catalog} {K : String → Class} {cls : Class} {name : String} {ref : DispatcherRef}

/-- The dispatcher is over the methods of a name: it was found by a look-up on the class, in
whatever way, or bound by the host. -/
inductive World.Wraps (C : Catalog) (K : String → Class) (cls : Class) (name : String)
    (ref : DispatcherRef) : World → Prop
  | lookedUp {w w' : World} (run : LookupRun C K w) (follows : w.Follows C K cls)
      (alive : w.machine.session.isSome = true) {binding isStatic : Binding} {f : FunctionRef}
      (found : member? cls binding name w = (some (.method ref f isStatic), w')) :
      Wraps C K cls name ref w'
  | bound {w w' : World} (follows : w.Follows C K cls) (alive : w.machine.session.isSome = true)
      {target : Option ObjectRef} (bound : bindMethod cls name target w = .ok ref w') :
      Wraps C K cls name ref w'
  | later {w w' : World} (h : Wraps C K cls name ref w) (hsame : w.Remembers w') :
      Wraps C K cls name ref w'

/-- The methods that a look-up finds are all those of the name. -/
theorem Catalog.methodsOf_of_findMember? {isStatic : Bool}
    (h : C.findMember? cls name isStatic = some (.methods candidates)) :
    C.methodsOf cls name isStatic = candidates := by
  unfold findMember? at h
  split at h
  · obtain ⟨m, -, hgroup⟩ := List.exists_of_findSome?_eq_some h
    cases m <;> cases hgroup
  · cases h
    rfl

theorem Catalog.methodsOf_of_lookUp? {implicitStatic isStatic : Bool} {binding : Binding}
    (h : C.lookUp? implicitStatic cls binding name = some (isStatic, .methods candidates)) :
    C.methodsOf cls name isStatic = candidates := by
  have hfind {b : Bool}
      (h : (C.findMember? cls name b).map (b, ·) = some (isStatic, .methods candidates)) :
      C.methodsOf cls name isStatic = candidates := by
    obtain ⟨g, hg, he⟩ := Option.map_eq_some_iff.mp h
    cases he
    exact methodsOf_of_findMember? hg
  cases binding with
  | onObject =>
    obtain hinstance | ⟨-, hstatic⟩ := Option.or_eq_some_iff.mp h
    · exact hfind hinstance
    · split at hstatic
      · exact hfind hstatic
      · cases hstatic
  | _ => exact hfind h

/-- What binding makes: a dispatcher over the methods of the name. -/
theorem bindMethod_ok {target : Option ObjectRef} (h : bindMethod cls name target w = .ok ref w') :
    ∃ d, newDispatcher d w = (ref, w') ∧ d.candidates ≠ [] ∧
      d.candidates = w.catalog.methodsOf cls name target.isNone := by
  have hread : readSession w = ((readSession w).1, w) := rfl
  unfold bindMethod at h
  rw [bind_of_ok (lift_of_eq hread)] at h
  replace h : (if (w.catalog.methodsOf cls name target.isNone).isEmpty = true then _ else _ :
    Host DispatcherRef) w = .ok ref w' := h
  cases hempty : (w.catalog.methodsOf cls name target.isNone).isEmpty with
  | true =>
    rw [hempty, if_pos rfl] at h
    cases h
  | false =>
    rw [hempty, if_neg Bool.false_ne_true] at h
    let d : Dispatcher := {
      name, cls
      binding := if target.isSome then .onObject else .static
      candidates := w.catalog.methodsOf cls name target.isNone
      bound := target }
    have h : EStateM.Result.ok (newDispatcher d w).1 (newDispatcher d w).2 = .ok ref w' := h
    cases h
    exact ⟨d, rfl, fun hnil => Bool.eq_false_iff.mp hempty (List.isEmpty_iff.mpr hnil), rfl⟩

/-- The candidates of such a dispatcher are the methods of the name along the bases. -/
theorem World.Wraps.methods (h : World.Wraps C K cls name ref w) :
    ref.index < w.dispatchers.next ∧ ∃ isStatic, ∀ d, w.dispatchers.get? ref.index = some d →
      d.candidates = C.methodsOf cls name isStatic := by
  induction h with
  | @lookedUp w w' run follows alive binding isStatic f found =>
    obtain ⟨s, hs⟩ := Option.isSome_iff_exists.mp alive
    obtain ⟨r, w₁, hmember, -, -, hfound⟩ := member?_faithful run.faithful follows hs binding name
    obtain ⟨rfl, rfl⟩ := Prod.mk.inj (found.symm.trans hmember)
    obtain ⟨hnone, -⟩ | ⟨member, isStatic, g, hsome, hlookUp, hstands⟩ := hfound
    · cases hnone
    · cases hsome
      cases hstands with
      | method hf hcode hd hcandidates =>
        exact ⟨hd, isStatic, fun d hcell =>
          (hcandidates d hcell).trans (Catalog.methodsOf_of_lookUp? hlookUp).symm⟩
  | @bound w w' follows alive target bound =>
    obtain ⟨s, hs⟩ := Option.isSome_iff_exists.mp alive
    obtain ⟨d, hnew, hsome, hmethods⟩ := bindMethod_ok bound
    obtain ⟨rfl, rfl⟩ : ⟨w.dispatchers.next⟩ = ref ∧
      { w with dispatchers := w.dispatchers.add d } = w' := Prod.mk.inj hnew
    refine ⟨Nat.lt_of_lt_of_eq (Nat.lt_succ_self _) (Store.next_add _ _).symm, target.isNone,
      fun d' hd' => ?_⟩
    obtain rfl : d = d' := Option.some.inj ((Store.get?_add_next _ _).symm.trans hd')
    have hgroup := follows.2 s hs name target.isNone
    have hfind : s.catalog.findMember? cls name target.isNone = some (.methods d.candidates) := by
      rw [World.catalog_of_some hs] at hmethods
      unfold Catalog.findMember?
      rw [← hmethods]
      cases hcandidates : d.candidates with
      | nil => exact absurd hcandidates hsome
      | cons => rfl
    exact (Catalog.methodsOf_of_findMember? (hgroup.symm.trans hfind)).symm
  | @later w w' h hsame ih =>
    obtain ⟨hnext, isStatic, hcandidates⟩ := ih
    refine ⟨Nat.lt_of_lt_of_le hnext hsame.dispatchersNext, isStatic, fun d' hd' => ?_⟩
    obtain ⟨d, hd, he⟩ := hsame.dispatchers _ hnext d' hd'
    exact he.trans (hcandidates d hd)

/-- No call invokes a method that is hidden. Let a class redeclare a method of one of its bases, for
the same name, static as that is or not, and with the same parameters. Then no call of a dispatcher
that was looked up on the class, or on one derived from it, or was bound to it, is prepared with the
method of the base, whatever the arguments are and whatever plans earlier calls left; and the
outcome depends on how engines invoke other methods only.

Where tables are among the arguments, now or in an earlier call, memory is taken to be settled and
the slots of the registry table to be as references left them, numbers of references to be in range,
and what is read not to be the registry table. -/
theorem World.Wraps.hides_overridden (h : World.Wraps C K cls name ref w) (hC : C.DeclaresOwn)
    (hcls : cls.DeclaresOwn) (hacyclic : C.Acyclic cls) (hover : C.Overrides cls name m' m)
    (hw : w.Sound) (hd : ∀ d, w.dispatchers.get? ref.index = some d → d.Callable ref w) :
    (∀ d plan target values w₁,
      prepareDispatch ref w = .ok (d, plan, target, values) w₁ → plan.method ≠ m) ∧
    ∀ E E' : Engine,
      (∀ m₁ cls target values w, m₁ ≠ m →
        E.invoke m₁ cls target values w = E'.invoke m₁ cls target values w) →
      dispatch E ref w = dispatch E' ref w := by
  obtain ⟨-, isStatic, hmethods⟩ := h.methods
  have hnever (d : Dispatcher) (plan : Plan) (target : Option ObjectRef) (values : List HostValue)
      (w₁ : World) (hprepare : prepareDispatch ref w = .ok (d, plan, target, values) w₁) :
      plan.method ≠ m := by
    rintro rfl
    obtain ⟨hcell, hleads⟩ := prepareDispatch_leads hw hd hprepare
    rw [hmethods d hcell] at hleads
    exact Catalog.not_leads_of_overrides hC hcls hacyclic hover hleads
  refine ⟨hnever, fun E E' hE => ?_⟩
  rw [dispatch_eq, dispatch_eq]
  cases hprepare : prepareDispatch ref w with
  | error r w₁ => rw [bind_of_error hprepare, bind_of_error hprepare]
  | ok prepared w₁ =>
    obtain ⟨d, plan, target, values⟩ := prepared
    rw [bind_of_ok hprepare, bind_of_ok hprepare]
    exact finishDispatch_eq ref d plan target values
      (hE _ _ _ _ _ (hnever d plan target values w₁ hprepare))

/-! ### A method and the one it hides -/

/-- A method over two lists of functions. -/
def takeMethod (owner : String) : Method where
  name := "take"
  declaringType := owner
  params := [⟨.array (.handle .function), .input, none, false⟩,
    ⟨.array (.handle .function), .input, none, false⟩]
  ret := .void
  isStatic := true
  body := some (.statements [])

def takeBase : Class := { name := "Demo.Base", members := [.method (takeMethod "Demo.Base")] }

def takeClass : Class where
  name := "Demo.Derived"
  base := some "Demo.Base"
  members := [.method (takeMethod "Demo.Derived")]

def takeCatalog : Catalog := (Catalog.initial.register takeBase).register takeClass

/-- A registry table with two free references, a list of one function, and two arguments. -/
def takeWorld (stack : Array Value) : World where
  tables := ⟨#[some { entries := [⟨.integer 1, .number (Number.ofInt 1), .strong (.number .zero)⟩,
        ⟨.integer 2, .number (Number.ofInt 2), .strong (.number (Number.ofInt 1))⟩,
        ⟨.text Reference.freeField, .text Reference.freeField,
          .strong (.number (Number.ofInt 2))⟩] },
      some {}, some { weakValues := true },
      some { entries := [⟨.integer 1, .number (Number.ofInt 1), .strong (.function ⟨0⟩)⟩] }]⟩
  functions := ⟨#[some ⟨.none, .script []⟩]⟩
  machine := {
    id := 0, registry := ⟨0⟩, globals := ⟨1⟩, nextRef := 3, appData := .session, stack
    session := some {
      id := 0, options := {}, adapters := .build, objects := ⟨2⟩, catalog := takeCatalog } }

/-- The host binds the method of the derived class. -/
def takeBound (stack : Array Value) : World :=
  worldAfter (bindMethod takeClass "take" none (takeWorld stack))

theorem takeBase_declaresOwn : takeBase.DeclaresOwn := by
  refine ⟨fun m hm => ?_, fun _ hm => absurd hm List.not_mem_nil⟩
  cases List.mem_singleton.mp hm
  rfl

theorem takeClass_declaresOwn : takeClass.DeclaresOwn := by
  refine ⟨fun m hm => ?_, fun _ hm => absurd hm List.not_mem_nil⟩
  cases List.mem_singleton.mp hm
  rfl

theorem takeCatalog_declaresOwn : takeCatalog.DeclaresOwn :=
  (Catalog.declaresOwn_initial.register takeBase_declaresOwn).register takeClass_declaresOwn

theorem takeCatalog_acyclic : takeCatalog.Acyclic takeClass := by
  have hname (i : Nat) (d : Class) (h : takeCatalog.ancestor? i takeClass = some d) :
      i = 0 ∧ d.name = "Demo.Derived" ∨ i = 1 ∧ d.name = "Demo.Base" := by
    match i with
    | 0 =>
      cases h
      exact .inl ⟨rfl, rfl⟩
    | 1 =>
      cases h
      exact .inr ⟨rfl, rfl⟩
    | _ + 2 => cases h
  intro i j d e hd he hsame
  obtain ⟨rfl, hdname⟩ | ⟨rfl, hdname⟩ := hname i d hd
  · obtain ⟨rfl, -⟩ | ⟨-, hename⟩ := hname j e he
    · rfl
    · rw [hdname, hename] at hsame
      exact absurd hsame (by decide)
  · obtain ⟨-, hename⟩ | ⟨rfl, -⟩ := hname j e he
    · rw [hdname, hename] at hsame
      exact absurd hsame (by decide)
    · rfl

theorem takeCatalog_overrides : takeCatalog.Overrides takeClass "take"
    (takeMethod "Demo.Derived") (takeMethod "Demo.Base") :=
  ⟨0, 1, takeClass, takeBase, Nat.zero_lt_one, rfl, rfl, List.mem_cons_self, List.mem_cons_self,
    rfl, rfl⟩

theorem takeBound_wraps (stack : Array Value) :
    World.Wraps takeCatalog (fun _ => takeClass) takeClass "take" ⟨0⟩ (takeBound stack) := by
  have hbound : bindMethod takeClass "take" none (takeWorld stack) =
      .ok ⟨0⟩ (takeBound stack) := rfl
  refine .bound ⟨rfl, fun s hs name isStatic => ?_⟩ rfl hbound
  cases hs
  rfl

/-- The dispatcher that the host bound. -/
def takeDispatcher : Dispatcher where
  name := "take"
  cls := takeClass
  binding := .static
  candidates := [takeMethod "Demo.Derived", takeMethod "Demo.Base"]

theorem takeBound_dispatcher {stack : Array Value} {i : Nat} {d : Dispatcher}
    (h : (takeBound stack).dispatchers.get? i = some d) : d = takeDispatcher := by
  have h : (Store.add {} takeDispatcher).get? i = some d := h
  rw [Store.get?_add] at h
  split at h
  · exact (Option.some.inj h).symm
  · rw [Store.get?_eq_none _ (Nat.zero_le i)] at h
    cases h

theorem takeDispatcher_hasDefaults (w : World) : takeDispatcher.HasDefaults w := by
  intro m hm p hp v hv
  have hdefault : p.default = none := by
    simp only [takeDispatcher, List.mem_cons, List.not_mem_nil, or_false] at hm
    obtain rfl | rfl := hm
    all_goals
      simp only [takeMethod, List.mem_cons, List.not_mem_nil, or_false] at hp
      obtain rfl | rfl := hp <;> rfl
  rw [hdefault] at hv
  cases hv

theorem takeBound_sound (stack : Array Value) : (takeBound stack).Sound where
  dropped _ h := absurd h List.not_mem_nil
  held c r hr := by
    cases c with
    | table t => exact World.made_of_table hr
    | function f =>
      have hr : r ∈ (((takeBound stack).functions.get? f.index).map Function.refs).getD [] := hr
      cases hf : (takeBound stack).functions.get? f.index with
      | none =>
        rw [hf] at hr
        exact absurd hr List.not_mem_nil
      | some fn =>
        obtain ⟨_ | i⟩ := f
        · exact absurd hr List.not_mem_nil
        · rw [Store.get?_eq_none (s := (takeBound stack).functions)
            (Nat.succ_le_succ (Nat.zero_le i))] at hf
          cases hf
    | dispatcher d =>
      have hr : r ∈ (((takeBound stack).dispatchers.get? d.index).map
        Dispatcher.refs).getD [] := hr
      cases hd : (takeBound stack).dispatchers.get? d.index with
      | none =>
        rw [hd] at hr
        exact absurd hr List.not_mem_nil
      | some d' =>
        obtain rfl := takeBound_dispatcher hd
        rw [hd] at hr
        exact absurd hr List.not_mem_nil
    | handle h => exact absurd hr List.not_mem_nil
    | userdata u => exact absurd hr (Store.not_mem_refs_empty u.index Userdata.refs r)
    | object o => exact absurd hr (Store.not_mem_refs_empty o.index HostObject.refs r)
    | cell c => exact absurd hr (Store.not_mem_refs_empty c.index Cell.refs r)
  exposed o ho := by
    obtain ⟨s, id, hs, ho⟩ := ho
    cases hs
    cases ho
  keyed s hs := by
    cases hs
    exact (Catalog.isKeyed_initial.register _).register _

/-- Called with two nils, the dispatcher is prepared with the method of the derived class. -/
theorem hides_take :
    World.Wraps takeCatalog (fun _ => takeClass) takeClass "take" ⟨0⟩ (takeBound #[.nil, .nil]) ∧
    (takeBound #[.nil, .nil]).Sound ∧ ∃ d plan target values w₁,
      prepareDispatch ⟨0⟩ (takeBound #[.nil, .nil]) = .ok (d, plan, target, values) w₁ ∧
      plan.method ≠ takeMethod "Demo.Base" := by
  refine ⟨takeBound_wraps _, takeBound_sound _, ?_⟩
  obtain ⟨hnever, -⟩ := World.Wraps.hides_overridden (takeBound_wraps #[.nil, .nil])
    takeCatalog_declaresOwn takeClass_declaresOwn takeCatalog_acyclic takeCatalog_overrides
    (takeBound_sound _) fun d hd => by
      obtain rfl := takeBound_dispatcher hd
      have harguments : takeDispatcher.argumentsIn ((takeBound #[.nil, .nil]).inCall ⟨0⟩) =
          [.nil, .nil] := by decide +kernel
      refine ⟨takeDispatcher_hasDefaults _, .none, fun ⟨t, ht⟩ => ?_⟩
      rw [harguments] at ht
      simp at ht
  have hprepared : (match prepareDispatch ⟨0⟩ (takeBound #[.nil, .nil]) with
      | .ok _ _ => true
      | .error _ _ => false) = true := by decide +kernel
  cases hprepare : prepareDispatch ⟨0⟩ (takeBound #[.nil, .nil]) with
  | error r w₁ =>
    rw [hprepare] at hprepared
    cases hprepared
  | ok prepared w₁ =>
    obtain ⟨d, plan, target, values⟩ := prepared
    exact ⟨d, plan, target, values, w₁, rfl, hnever d plan target values w₁ hprepare⟩

/-- Called with a list of a function and the registry table, it is prepared with the method of the
base. For the method of the derived class the registry table holds no functions only; matching the
list for both methods puts its function there under both free references. -/
theorem hidden_method_selected :
    takeCatalog.DeclaresOwn ∧ takeClass.DeclaresOwn ∧ takeCatalog.Acyclic takeClass ∧
    takeCatalog.Overrides takeClass "take" (takeMethod "Demo.Derived") (takeMethod "Demo.Base") ∧
    World.Wraps takeCatalog (fun _ => takeClass) takeClass "take" ⟨0⟩
      (takeBound #[.table ⟨3⟩, .table ⟨0⟩]) ∧
    (takeBound #[.table ⟨3⟩, .table ⟨0⟩]).Sound ∧ ∃ d plan target values w₁,
      prepareDispatch ⟨0⟩ (takeBound #[.table ⟨3⟩, .table ⟨0⟩]) =
        .ok (d, plan, target, values) w₁ ∧
      d.HasDefaults (takeBound #[.table ⟨3⟩, .table ⟨0⟩]) ∧ d.plan = none ∧
      plan.method = takeMethod "Demo.Base" := by
  refine ⟨takeCatalog_declaresOwn, takeClass_declaresOwn, takeCatalog_acyclic,
    takeCatalog_overrides, takeBound_wraps _, takeBound_sound _, ?_⟩
  have hprepared : (match prepareDispatch ⟨0⟩ (takeBound #[.table ⟨3⟩, .table ⟨0⟩]) with
      | .ok (_, plan, _) _ => plan.method.declaringType == "Demo.Base"
      | .error _ _ => false) = true := by decide +kernel
  cases hprepare : prepareDispatch ⟨0⟩ (takeBound #[.table ⟨3⟩, .table ⟨0⟩]) with
  | error r w₁ =>
    rw [hprepare] at hprepared
    cases hprepared
  | ok prepared w₁ =>
    obtain ⟨d, plan, target, values⟩ := prepared
    obtain ⟨hcell, ⟨hmem, -⟩, -⟩ := prepareDispatch_typed (takeBound_sound _) (fun d hd => by
      obtain rfl := takeBound_dispatcher hd
      exact ⟨takeDispatcher_hasDefaults _, .none⟩) hprepare
    obtain rfl := takeBound_dispatcher hcell
    refine ⟨takeDispatcher, plan, target, values, w₁, rfl, takeDispatcher_hasDefaults _, rfl, ?_⟩
    rw [hprepare] at hprepared
    have howner : plan.method.declaringType = "Demo.Base" := beq_iff_eq.mp hprepared
    simp only [takeDispatcher, List.mem_cons, List.not_mem_nil, or_false] at hmem
    obtain hmethod | hmethod := hmem
    · rw [hmethod] at howner
      exact absurd howner (by decide)
    · exact hmethod

end ScriptBridge
