import ScriptBridge.Bridge.Embedding
import ScriptBridge.Bridge.Signature
import ScriptBridge.Proofs.Dispatch.Caching
import ScriptBridge.Proofs.Dispatch.Consumption
import ScriptBridge.Proofs.Host.Catalog
import ScriptBridge.Script.Declaration

/-!
# What a body is told about its call

A body is told the object it runs on and a class. The object is the one its dispatcher is bound to,
which a call takes as it is, or the one behind the first argument, which a call checks. The class is
that of the dispatcher, which is the one its methods were looked up on.

1. `dispatch_onObject`: which object a call runs on, and that it fails without one.
2. `World.WellBound`: every dispatcher that is bound to an object is bound to one of its class. Looking
   up members, constructors and signatures keeps that. `bindMethod` keeps it only if the target that
   it is given is of the class, and it does not ask.
3. `dispatch_told_class`: a method that was looked up is declared by the class that its body is
   told or by a base of that, and a constructor by the class itself.
-/

namespace ScriptBridge

variable {w w' : World} {d : Dispatcher} {ref : DispatcherRef} {o : ObjectRef}

/-! ## The target -/

/-- The object can be used as the class of a name. -/
def World.IsA (w : World) (o : ObjectRef) (name : String) : Prop :=
  ∃ cell, w.objects.get? o.index = some cell ∧ w.catalog.isAssignable name cell.cls = true

namespace Dispatcher

/-- The object that a call runs on: the bound one, or else the one behind the first argument, if it
fits. -/
def target? (d : Dispatcher) (w : World) : Option ObjectRef :=
  d.bound.or (w.fittingObject? (w.machine.value 1) (.named d.cls.name))

/-- Why a call without such an object fails. -/
def noTarget (d : Dispatcher) : Cause :=
  .invalidTarget ("instance method '" ++ d.name ++ "' requires a non null target object")

/-- The object it is bound to, if there is one, is of its class. -/
def WellBound (d : Dispatcher) (w : World) : Prop := ∀ o, d.bound = some o → w.IsA o d.cls.name

theorem target?_isA (hwell : d.WellBound w) (h : d.target? w = some o) : w.IsA o d.cls.name := by
  unfold target? at h
  cases hbound : d.bound with
  | some o' =>
    rw [hbound] at h
    cases h
    exact hwell o hbound
  | none =>
    rw [hbound, Option.none_or] at h
    obtain ⟨-, cell, hcell, hcls⟩ := World.fittingObject?_eq_some h
    exact ⟨cell, hcell, hcls⟩

end Dispatcher

theorem findTarget_onObject (hbinding : d.binding = .onObject) (w : World) :
    findTarget d w = match d.target? w with
      | some o => .ok (some o, if d.bound.isSome then 1 else 2) w
      | none => raiseCause d.noTarget w := by
  have hsame : (d.binding != .onObject) = false := bne_eq_false_iff_eq.mpr hbinding
  unfold findTarget Dispatcher.target?
  rw [hsame, if_neg Bool.false_ne_true]
  cases hbound : d.bound with
  | some o => rfl
  | none =>
    rw [Option.none_or]
    dsimp only
    rw [lift_bind, lift_bind]
    have hfitting : (fittingObject? (valueAt 1 w).1 (.named d.cls.name) (valueAt 1 w).2) =
      (w.fittingObject? (w.machine.value 1) (.named d.cls.name), w) := rfl
    rw [hfitting]
    cases w.fittingObject? (w.machine.value 1) (.named d.cls.name) <;> rfl

/-- What is raised does not depend on the result that was asked for. -/
theorem raiseCause_of_error {α β : Type} {cause : Cause} {r : Raise}
    (h : (raiseCause cause : Script α) w = .error r w') :
    (raiseCause cause : Script β) w = .error r w' := by
  have hbind := congrFun (raiseCause_bind cause fun _ : α => (raiseCause cause : Script β)) w
  rw [bind_of_error h] at hbind
  exact hbind.symm

/-- A call of a dispatcher for instance methods is prepared for the bound object whatever that is,
or else for the fitting one behind the first argument. Without one it fails, and no body runs. -/
theorem dispatch_onObject (hsession : w.session?.isSome)
    (hd : (collectReleased w).2.dispatchers.get? ref.index = some d)
    (hbinding : d.binding = .onObject) :
    match d.target? (collectReleased w).2 with
    | some o => ∃ r w', ∀ E, dispatch E ref w = runSelected E ref d (some o) r w'
    | none => ∀ E, dispatch E ref w = raiseCause d.noTarget (collectReleased w).2 := by
  have hcall := dispatch_of_target hsession hd
  rw [findTarget_onObject hbinding] at hcall
  cases htarget : d.target? (collectReleased w).2 with
  | some o =>
    rw [htarget] at hcall
    exact ⟨_, _, hcall⟩
  | none =>
    rw [htarget] at hcall
    intro E
    obtain ⟨r, w', herror⟩ := raiseCause_error (α := Option ObjectRef × Int) d.noTarget
      (collectReleased w).2
    rw [hcall E]
    dsimp only
    rw [herror]
    exact (raiseCause_of_error herror).symm

/-- So the body runs on an object of the class if a bound object is one. -/
theorem dispatch_wellBound (hsession : w.session?.isSome)
    (hd : (collectReleased w).2.dispatchers.get? ref.index = some d)
    (hbinding : d.binding = .onObject) (hwell : d.WellBound (collectReleased w).2) :
    (∃ o r w', (collectReleased w).2.IsA o d.cls.name ∧
      ∀ E, dispatch E ref w = runSelected E ref d (some o) r w') ∨
    ∀ E, dispatch E ref w = raiseCause d.noTarget (collectReleased w).2 := by
  have hcall := dispatch_onObject hsession hd hbinding
  cases htarget : d.target? (collectReleased w).2 with
  | some o =>
    rw [htarget] at hcall
    obtain ⟨r, w', hcall⟩ := hcall
    exact .inl ⟨o, r, w', Dispatcher.target?_isA hwell htarget, hcall⟩
  | none =>
    rw [htarget] at hcall
    exact .inr hcall

/-! ## Which dispatchers are bound -/

/-- Every dispatcher that is bound to an object is bound to one of its class. -/
def World.WellBound (w : World) : Prop := ∀ i d, w.dispatchers.get? i = some d → d.WellBound w

theorem World.IsA.of_same {name : String} (h : w.IsA o name) (hobjects : w'.objects = w.objects)
    (hcatalog : w'.catalog = w.catalog) : w'.IsA o name := by
  obtain ⟨cell, hcell, hcls⟩ := h
  exact ⟨cell, hobjects ▸ hcell, hcatalog ▸ hcls⟩

theorem World.WellBound.of_same (h : w.WellBound) (hobjects : w'.objects = w.objects)
    (hcatalog : w'.catalog = w.catalog) (hdispatchers : w'.dispatchers = w.dispatchers) :
    w'.WellBound := by
  intro i d hd o ho
  rw [hdispatchers] at hd
  exact (h i d hd o ho).of_same hobjects hcatalog

theorem World.WellBound.newDispatcher (h : w.WellBound) (hwell : d.WellBound w) :
    (newDispatcher d w).2.WellBound := by
  intro i d' hd' o ho
  have hd' : (w.dispatchers.add d).get? i = some d' := hd'
  rw [Store.get?_add] at hd'
  refine World.IsA.of_same (w := w) ?_ rfl rfl
  split at hd'
  · cases hd'
    exact hwell o ho
  · exact h i d' hd' o ho

theorem keeps_wellBound_newDispatcher (hbound : d.bound = none) :
    Keeps World.WellBound (newDispatcher d) :=
  keeps_modifyGet fun w h => h.newDispatcher fun o ho => by
    rw [hbound] at ho
    cases ho

theorem keeps_wellBound_readSession : Keeps World.WellBound readSession :=
  keeps_get.bind fun _ => keeps_pure _

theorem keeps_wellBound_modifySession {f : Session → Session}
    (hf : ∀ s, (f s).catalog = s.catalog) : Keeps World.WellBound (modifySession f) := by
  refine keeps_modify fun w h => h.of_same rfl ?_ rfl
  show ((w.machine.session.map f).getD default).catalog =
    (w.machine.session.getD default).catalog
  cases w.machine.session with
  | none => rfl
  | some s => exact hf s

theorem keeps_wellBound_functionOf (name : String) (ref : DispatcherRef) :
    Keeps World.WellBound (functionOf name ref) :=
  keeps_modifyGet fun _ h => h.of_same rfl rfl rfl

/-- What a look-up of members makes is bound to nothing. -/
theorem keeps_wellBound_foundMember (cls : Class) (name : String) (isStatic : Bool) (g : MemberGroup) :
    Keeps World.WellBound (foundMember cls name isStatic g) := by
  cases g with
  | methods candidates =>
    exact (keeps_wellBound_newDispatcher rfl).bind fun ref =>
      (keeps_wellBound_functionOf name ref).bind fun _ => keeps_pure _
  | _ => exact keeps_pure _

theorem keeps_wellBound_member? (cls : Class) (binding : Binding) (name : String) :
    Keeps World.WellBound (member? cls binding name) := by
  refine keeps_wellBound_readSession.bind fun s => ?_
  dsimp only
  split
  · exact keeps_pure _
  · split
    · exact keeps_pure _
    · rename_i isStatic g _
      refine (keeps_wellBound_foundMember cls name isStatic g).bind fun found =>
        .bind (keeps_wellBound_modifySession ?_) fun _ => keeps_pure _
      exact fun _ => rfl

theorem keeps_wellBound_constructor? (cls : Class) : Keeps World.WellBound (constructor? cls) := by
  refine keeps_wellBound_readSession.bind fun s => ?_
  split
  · exact keeps_pure _
  · split
    · exact keeps_pure _
    · refine (keeps_wellBound_newDispatcher rfl).bind fun ref =>
        .bind (keeps_wellBound_modifySession ?_) fun _ => keeps_pure _
      exact fun _ => rfl

/-- A signature binds to the target that it was looked up on. -/
theorem wellBound_bindBySignature (h : w.WellBound) (cls : Class) (name : String)
    (signature : List String) {target : Option ObjectRef}
    (htarget : ∀ o, target = some o → w.IsA o cls.name) :
    (bindBySignature cls name signature target w).2.WellBound := by
  have hread : readSession w = ((readSession w).1, w) := rfl
  unfold bindBySignature
  rw [bind_of_eq hread]
  cases (readSession w).1.catalog.methodBySignature? cls name signature with
  | none => exact h
  | some m =>
    refine h.newDispatcher (d := ⟨name, cls, _, [m], _, none⟩) fun o ho => ?_
    have ho : (if m.isStatic then none else target) = some o := ho
    split at ho
    · cases ho
    · exact htarget o ho

/-- The target of a look-up is of the class that is searched, which is its own. -/
theorem classArgument_isA {cls : Class} {target : Option ObjectRef}
    (h : classArgument w = .ok (cls, target) w') (ho : target = some o)
    (hthere : ∃ cell, w.objects.get? o.index = some cell) : w'.IsA o cls.name := by
  unfold classArgument at h
  rw [lift_bind, lift_bind] at h
  have hbehind : objectBehind? (valueAt 1 w).1 (valueAt 1 w).2 =
    (w.objectBehind? (w.machine.value 1), w) := rfl
  rw [hbehind] at h
  cases hobject : w.objectBehind? (w.machine.value 1) with
  | none =>
    rw [hobject] at h
    cases h
  | some ref =>
    rw [hobject] at h
    dsimp only at h
    have hread : readObject? ref w = (w.objects.get? ref.index, w) := rfl
    rw [bind_of_ok (lift_of_eq hread)] at h
    cases htype : ((w.objects.get? ref.index).getD ⟨default, .foreign⟩).typeTarget? with
    | some cls' =>
      rw [htype] at h
      cases h
      cases ho
    | none =>
      rw [htype] at h
      cases h
      cases ho
      obtain ⟨cell, hcell⟩ := hthere
      refine ⟨cell, hcell, ?_⟩
      rw [hcell]
      exact w.catalog.isAssignable_self cell.cls

/-- Binding methods to a target does not look at its class. -/
theorem wellBound_bindMethod_iff (h : w.WellBound) (cls : Class) (name : String)
    (target : Option ObjectRef) (hfound : w.catalog.methodsOf cls name target.isNone ≠ []) :
    ∃ ref w', bindMethod cls name target w = .ok ref w' ∧
      (w'.WellBound ↔ ∀ o, target = some o → w.IsA o cls.name) := by
  let d : Dispatcher := {
    name, cls
    binding := if target.isSome then .onObject else .static
    candidates := w.catalog.methodsOf cls name target.isNone
    bound := target }
  have hread : readSession w = ((readSession w).1, w) := rfl
  have hsome : (w.catalog.methodsOf cls name target.isNone).isEmpty = false :=
    Bool.eq_false_iff.mpr fun hempty => hfound (List.isEmpty_iff.mp hempty)
  have hbind : bindMethod cls name target w = .ok (newDispatcher d w).1 (newDispatcher d w).2 := by
    unfold bindMethod
    rw [bind_of_ok (lift_of_eq hread)]
    show (if (w.catalog.methodsOf cls name target.isNone).isEmpty = true then _ else _ :
      Host DispatcherRef) w = _
    rw [hsome, if_neg Bool.false_ne_true]
    rfl
  refine ⟨_, _, hbind, fun hbound o ho => ?_, fun htarget => h.newDispatcher htarget⟩
  have hnew : (newDispatcher d w).2.dispatchers.get? w.dispatchers.next = some d := by
    show (w.dispatchers.add d).get? w.dispatchers.next = some d
    rw [Store.get?_add, if_pos rfl]
  exact (hbound _ d hnew o ho).of_same rfl rfl

/-! ## The class -/

/-- The methods and constructors of a class name it as the one that declares them. -/
structure Class.DeclaresOwn (cls : Class) : Prop where
  methods : ∀ m, .method m ∈ cls.members → m.declaringType = cls.name
  constructors : ∀ m ∈ cls.constructors, m.declaringType = cls.name

theorem Answers.mapM {α β : Type} {f : α → Action β} {P : β → Prop} (h : ∀ a, Answers (f a) P)
    (l : List α) : Answers (l.mapM f) fun bs => ∀ b ∈ bs, P b := by
  induction l with
  | nil =>
    rw [List.mapM_nil]
    exact .pure nofun
  | cons a l ih =>
    rw [List.mapM_cons]
    refine (h a).bind fun b hb => ih.bind fun bs hbs => .pure fun x hx => ?_
    obtain rfl | hx := List.mem_cons.mp hx
    · exact hb
    · exact hbs x hx

theorem answers_memberBuild (owner : String) (d : MemberDecl) :
    Answers (d.build owner) fun member => ∀ m, member = .method m → m.declaringType = owner := by
  have hother {member : Action Member} (h : Answers member (·.method? = none)) :
      Answers member fun member => ∀ m, member = .method m → m.declaringType = owner := by
    intro w m hm
    have hnone := h w
    rw [hm] at hnone
    cases hnone
  cases d with
  | method name isStatic params ret body | abstract name params ret =>
    refine (Answers.true _).bind fun (params, storage) _ => .pure fun m hm => ?_
    cases hm
    rfl
  | field name isStatic type init =>
    refine hother ?_
    cases isStatic with
    | true => exact (Answers.true _).bind fun _ _ => (Answers.true _).bind fun _ _ => .pure rfl
    | false => exact .pure rfl
  | property name isStatic type init get set =>
    exact hother ((Answers.true _).bind fun _ _ => .pure rfl)
  | event name isStatic delegateType add remove =>
    exact hother ((Answers.true _).bind fun _ _ => .pure rfl)
  | nested name fullName => exact hother (.pure rfl)

/-- Every class that is declared declares its members. -/
theorem answers_classBuild (d : ClassDecl) : Answers d.build Class.DeclaresOwn := by
  cases d with
  | full name b =>
    have hconstructor (c : ConstructorDecl) :
        Answers (c.build name) fun m => m.declaringType = name :=
      (Answers.true _).bind fun (_, _) _ => .pure rfl
    refine (Answers.mapM hconstructor b.constructors).bind fun constructors hconstructors =>
      (Answers.mapM (answers_memberBuild name) b.members).bind fun members hmembers => .pure ?_
    exact ⟨fun m hm => hmembers _ hm m rfl, hconstructors⟩
  | delegate name params ret =>
    refine (Answers.true _).bind fun (_, _) _ => .pure ⟨fun m hm => ?_, nofun⟩
    cases List.mem_singleton.mp hm
    rfl

namespace Catalog

variable {c : Catalog} {cls : Class}

/-- All classes of the catalog declare their members. -/
def DeclaresOwn (c : Catalog) : Prop := ∀ name cls, c.find? name = some cls → cls.DeclaresOwn

theorem declaresOwn_initial : initial.DeclaresOwn := by
  intro name cls hfind
  obtain ⟨cls', hcls', he⟩ := List.mem_map.mp (Dictionary.mem_of_get? hfind)
  cases he
  simp only [List.mem_cons, List.not_mem_nil, or_false] at hcls'
  obtain rfl | rfl | rfl := hcls'
  · exact ⟨nofun, nofun⟩
  · exact ⟨nofun, nofun⟩
  · refine ⟨fun m hm => ?_, nofun⟩
    simp only [eventClass, List.mem_cons, List.not_mem_nil, or_false, Member.method.injEq] at hm
    obtain rfl | rfl := hm <;> rfl

theorem DeclaresOwn.register (hc : c.DeclaresOwn) (hcls : cls.DeclaresOwn) :
    (c.register cls).DeclaresOwn := by
  intro name cls' hfind
  rw [find?_register] at hfind
  split at hfind
  · cases hfind
    exact hcls
  · exact hc name cls' hfind

/-- Classes of arrays have no methods. -/
theorem DeclaresOwn.grows {c' : Catalog} (hc : c.DeclaresOwn) (h : c.Grows c') :
    c'.DeclaresOwn := by
  intro name cls hfind
  obtain hsame | ⟨-, e, harray⟩ := find?_grows h name
  · exact hc name cls (hsame ▸ hfind)
  · rw [harray] at hfind
    cases hfind
    exact ⟨fun _ hm => absurd (List.mem_singleton.mp hm) nofun, nofun⟩

theorem DeclaresOwn.basesFrom (hc : c.DeclaresOwn) (hcls : cls.DeclaresOwn) (limit : Nat) :
    ∀ base ∈ c.basesFrom limit cls, base.DeclaresOwn := by
  induction limit generalizing cls with
  | zero => exact nofun
  | succ limit ih =>
    intro base hbase
    unfold Catalog.basesFrom at hbase
    obtain rfl | hbase := List.mem_cons.mp hbase
    · exact hcls
    · cases hparent : cls.base.bind c.find? with
      | none =>
        rw [hparent] at hbase
        cases hbase
      | some parent =>
        rw [hparent] at hbase
        obtain ⟨name, -, hfind⟩ := Option.bind_eq_some_iff.mp hparent
        exact ih (hc name parent hfind) base hbase

/-- A method that is looked up is declared by the class or by a base. -/
theorem DeclaresOwn.methodsOf (hc : c.DeclaresOwn) (hcls : cls.DeclaresOwn) {name : String}
    {isStatic : Bool} {m : Method} (hm : m ∈ c.methodsOf cls name isStatic) :
    ∃ base ∈ c.hierarchy cls, m.declaringType = base.name := by
  obtain ⟨hm, -⟩ := List.mem_filter.mp hm
  obtain ⟨member, hmember, hmethod⟩ := List.mem_filterMap.mp hm
  obtain ⟨base, hbase, hmember⟩ := List.mem_flatMap.mp hmember
  obtain ⟨hmember, -⟩ := List.mem_filter.mp hmember
  cases member with
  | method =>
    cases hmethod
    exact ⟨base, hbase, (hc.basesFrom hcls walkLimit base hbase).methods m hmember⟩
  | _ => cases hmethod

end Catalog

/-- Where the candidates of a dispatcher come from: methods of its class or of a base, or else its
constructors. -/
inductive Dispatcher.LookedUp (d : Dispatcher) (c : Catalog) : Prop where
  | methods (name : String) (isStatic : Bool) (binding : d.binding ≠ .constructor)
      (candidates : d.candidates ⊆ c.methodsOf d.cls name isStatic)
  | constructors (candidates : d.candidates ⊆ d.cls.constructors)

theorem Dispatcher.LookedUp.declared {c : Catalog} (h : d.LookedUp c) (hc : c.DeclaresOwn)
    (hcls : d.cls.DeclaresOwn) {m : Method} (hm : m ∈ d.candidates) :
    ∃ base ∈ c.hierarchy d.cls, m.declaringType = base.name ∧
      (d.binding = .constructor → base = d.cls) := by
  cases h with
  | methods name isStatic binding candidates =>
    obtain ⟨base, hbase, hname⟩ := hc.methodsOf hcls (candidates hm)
    exact ⟨base, hbase, hname, fun h => absurd h binding⟩
  | constructors candidates =>
    exact ⟨d.cls, List.mem_cons_self, hcls.constructors m (candidates hm), fun _ => rfl⟩

/-- A body is told the class of its dispatcher. The method that runs is declared by that class or by
a base of it, and a constructor by that class. -/
theorem dispatch_told_class (hw : w.Sound)
    (hd : ∀ d, w.dispatchers.get? ref.index = some d → d.HasDefaults w ∧ Remembered d d.plan)
    {c : Catalog} {w₁ : World} {plan : Plan} {target : Option ObjectRef} {values : List HostValue}
    (hc : c.DeclaresOwn) (hcls : d.cls.DeclaresOwn) (hlooked : d.LookedUp c)
    (h : prepareDispatch ref w = .ok (d, plan, target, values) w₁) :
    (∃ base ∈ c.hierarchy d.cls, plan.method.declaringType = base.name ∧
      (d.binding = .constructor → base = d.cls)) ∧
    ∀ E E' : Engine,
      E.invoke plan.method d.cls target values (w₁.atInvocation target) =
        E'.invoke plan.method d.cls target values (w₁.atInvocation target) →
      dispatch E ref w = dispatch E' ref w := by
  obtain ⟨-, ⟨hmem, -⟩, -⟩ := prepareDispatch_typed hw hd h
  refine ⟨hlooked.declared hc hcls hmem, fun E E' hE => ?_⟩
  rw [dispatch_eq, dispatch_eq, bind_of_ok h, bind_of_ok h]
  exact finishDispatch_eq ref d plan target values hE

/-- An inherited method is not told the class that declares it. -/
example :
    let found : Method := {
      name := "where", declaringType := "Demo.Base", params := [], ret := .text, isStatic := true
      body := some (.statements []) }
    let base : Class := { name := "Demo.Base", members := [.method found] }
    let derived : Class := { name := "Demo.Derived", base := some "Demo.Base" }
    let c := (Catalog.initial.register base).register derived
    (c.methodsOf derived "where" true).map (·.declaringType) = ["Demo.Base"] := by
  decide

end ScriptBridge
