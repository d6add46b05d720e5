import ScriptBridge.Proofs.Bridge.Opening
import ScriptBridge.Proofs.Bridge.Remembering
import ScriptBridge.Proofs.Bridge.Showing
import ScriptBridge.Proofs.Dictionary

/-!
# Static members and instances

A session remembers the members it found, under the name of the class, the way they were looked up
and their own name. With one class for each name what it remembers is what the catalog says
(`World.Faithful`), in whatever order members were read and assigned before (`LookupRun`). So
instances give and take instance members, type proxies static ones, and static members show through
instances only where the options say so and no instance member has the name.

1. What the catalog says about a name is of one kind: static, or of instances.
2. A look-up answers what the catalog says, whether it remembers the answer or not.
3. A handler looks up, and then leaves the memory of members alone.
-/

namespace ScriptBridge

variable {C : Catalog} {K : String → Class} {w w' : World} {cls : Class} {name : String}
variable {isStatic : Bool} {g : MemberGroup} {found : FoundMember}

/-! ## The catalog -/

/-- All members of a group are static, or all are members of instances. -/
def MemberGroup.IsOf (isStatic : Bool) : MemberGroup → Prop
  | .methods candidates => candidates ≠ [] ∧ ∀ m ∈ candidates, m.isStatic = isStatic
  | .field f | .property f => f.isStatic = isStatic
  | .event e => e.isStatic = isStatic
  | .nested _ => isStatic = true

namespace Catalog

theorem isOf_of_groupOf? {m : Member} (h : C.groupOf? m = some g) : g.IsOf m.isStatic := by
  cases m with
  | method m => cases h
  | _ => cases h; rfl

theorem findMember?_isOf (h : C.findMember? cls name isStatic = some g) : g.IsOf isStatic := by
  unfold findMember? at h
  split at h
  · obtain ⟨m, hm, hgroup⟩ := List.exists_of_findSome?_eq_some h
    have hstatic : m.isStatic = isStatic := beq_iff_eq.mp (List.mem_filter.mp hm).2
    exact hstatic ▸ isOf_of_groupOf? hgroup
  · rename_i hne
    cases h
    refine ⟨hne, fun m hm => ?_⟩
    exact beq_iff_eq.mp (List.mem_filter.mp hm).2

/-- Where nothing is found no member of the kind has the name. -/
theorem isStatic_of_findMember?_none (h : C.findMember? cls name isStatic = none) {m : Member}
    (hm : m ∈ C.membersOf cls name) : m.isStatic ≠ isStatic := by
  intro hstatic
  unfold findMember? at h
  split at h
  · rename_i hmethods
    have hnone := List.findSome?_eq_none_iff.mp h m
      (List.mem_filter.mpr ⟨hm, beq_iff_eq.mpr hstatic⟩)
    cases m with
    | method f =>
      have hf : f ∈ C.methodsOf cls name isStatic :=
        List.mem_filter.mpr ⟨List.mem_filterMap.mpr ⟨_, hm, rfl⟩, beq_iff_eq.mpr hstatic⟩
      rw [hmethods] at hf
      cases hf
    | _ => cases hnone
  · cases h

/-- What a name stands for: on an instance its own members, and static ones behind them if they
show; static members only for any other look-up. -/
def lookUp? (c : Catalog) (implicitStatic : Bool) (cls : Class) (binding : Binding)
    (name : String) : Option (Bool × MemberGroup) :=
  match binding with
  | .onObject =>
    ((c.findMember? cls name false).map (false, ·)).or
      (if implicitStatic then (c.findMember? cls name true).map (true, ·) else none)
  | _ => (c.findMember? cls name true).map (true, ·)

/-- A look-up finds members of one kind. -/
theorem lookUp?_isOf {implicitStatic : Bool} {binding : Binding}
    (h : C.lookUp? implicitStatic cls binding name = some (isStatic, g)) : g.IsOf isStatic := by
  have hfind {b : Bool} (h : (C.findMember? cls name b).map (b, ·) = some (isStatic, g)) :
      g.IsOf isStatic := by
    obtain ⟨g', hg', he⟩ := Option.map_eq_some_iff.mp h
    cases he
    exact findMember?_isOf hg'
  cases binding with
  | onObject =>
    obtain hinstance | ⟨-, hstatic⟩ := Option.or_eq_some_iff.mp h
    · exact hfind hinstance
    · split at hstatic
      · exact hfind hstatic
      · cases hstatic
  | _ => exact hfind h

/-- Static members show through an instance where the options say so, if it has no member of its own
of that name. -/
theorem shows_of_lookUp? {implicitStatic : Bool}
    (h : C.lookUp? implicitStatic cls .onObject name = some (true, g)) :
    implicitStatic = true ∧ ∀ m ∈ C.membersOf cls name, m.isStatic = true := by
  obtain hinstance | ⟨hnone, hstatic⟩ := Option.or_eq_some_iff.mp h
  · obtain ⟨_, _, he⟩ := Option.map_eq_some_iff.mp hinstance
    cases he
  · split at hstatic
    · rename_i himplicit
      exact ⟨himplicit, fun m hm => (Bool.not_eq_false _).mp
        (isStatic_of_findMember?_none (Option.map_eq_none_iff.mp hnone) hm)⟩
    · cases hstatic

theorem static_of_lookUp? {implicitStatic : Bool}
    (h : C.lookUp? implicitStatic cls .static name = some (isStatic, g)) : isStatic = true := by
  obtain ⟨_, _, he⟩ := Option.map_eq_some_iff.mp h
  cases he
  rfl

end Catalog

theorem findGroup_eq (s : Session) (cls : Class) (binding : Binding) (name : String) :
    findGroup s cls binding name =
      s.catalog.lookUp? s.options.implicitStatic cls binding name := by
  cases binding <;> rfl

/-! ## What the session remembers -/

/-- What was found stands for a group: itself, or a function that calls a dispatcher over the
methods. -/
inductive World.Stands (w : World) : FoundMember → Bool → MemberGroup → Prop
  | method {d : DispatcherRef} {f : FunctionRef} {isStatic : Bool} {candidates : List Method}
      (hf : f.index < w.functions.next)
      (hcode : ∀ fn, w.functions.get? f.index = some fn → fn.code = .dispatcher d)
      (hd : d.index < w.dispatchers.next)
      (hcandidates : ∀ cell, w.dispatchers.get? d.index = some cell →
        cell.candidates = candidates) :
      Stands w (.method d f (if isStatic then .static else .onObject)) isStatic
        (.methods candidates)
  | field (f : Field) (isStatic : Bool) : Stands w (.field f) isStatic (.field f)
  | property (f : Field) (isStatic : Bool) : Stands w (.property f) isStatic (.property f)
  | event (e : Event) (isStatic : Bool) : Stands w (.event e) isStatic (.event e)
  | nested (cls : Option Class) (isStatic : Bool) : Stands w (.nested cls) isStatic (.nested cls)

theorem World.Stands.later (h : w.Stands found isStatic g) (hw : w.Remembers w') :
    w'.Stands found isStatic g := by
  cases h with
  | method hf hcode hd hcandidates =>
    refine .method (Nat.lt_of_lt_of_le hf hw.functionsNext)
      (fun fn hfn => hcode fn (hw.functions _ hf fn hfn))
      (Nat.lt_of_lt_of_le hd hw.dispatchersNext) fun cell' hcell' => ?_
    obtain ⟨cell, hcell, he⟩ := hw.dispatchers _ hd cell' hcell'
    exact he.trans (hcandidates cell hcell)
  | field f => exact .field f _
  | property f => exact .property f _
  | event e => exact .event e _
  | nested cls => exact .nested cls _

/-- What was found is static, or of instances, with every method that its function calls. -/
def World.Binds (w : World) (isStatic : Bool) : FoundMember → Prop
  | .method d f _ =>
    (∀ fn, w.functions.get? f.index = some fn → fn.code = .dispatcher d) ∧
    ∀ cell, w.dispatchers.get? d.index = some cell →
      cell.candidates ≠ [] ∧ ∀ m ∈ cell.candidates, m.isStatic = isStatic
  | .field f | .property f => f.isStatic = isStatic
  | .event e => e.isStatic = isStatic
  | .nested _ => isStatic = true

theorem World.Stands.binds (h : w.Stands found isStatic g) (hg : g.IsOf isStatic) :
    w.Binds isStatic found := by
  cases h with
  | method hf hcode hd hcandidates =>
    exact ⟨hcode, fun cell hcell => (hcandidates cell hcell).symm ▸ hg⟩
  | _ => exact hg

theorem World.Stands.isStatic_eq (h : w.Stands found isStatic g) (hg : g.IsOf isStatic) :
    found.isStatic = isStatic := by
  cases h with
  | method => cases isStatic <;> rfl
  | nested => exact hg.symm
  | _ => exact hg

/-- What the session remembers is what a catalog says, with one class for each name. -/
def World.Faithful (C : Catalog) (K : String → Class) (w : World) : Prop :=
  ∀ s, w.machine.session = some s → ∀ className binding name found,
    s.members.get? (className, binding, name) = some found → ∃ isStatic g,
      C.lookUp? s.options.implicitStatic (K className) binding name = some (isStatic, g) ∧
        w.Stands found isStatic g

theorem World.Faithful.later (h : w.Faithful C K) (hw : w.Remembers w') : w'.Faithful C K := by
  intro s' hs' className binding name found hfound
  obtain ⟨s, hs, hmemory⟩ := hw.session s' hs'
  have hoptions : s'.options = s.options := congrArg Prod.fst hmemory
  have hmembers : s'.members = s.members := congrArg Prod.snd hmemory
  rw [hmembers] at hfound
  obtain ⟨isStatic, g, hlookUp, hstands⟩ := h s hs className binding name found hfound
  exact ⟨isStatic, g, hoptions ▸ hlookUp, hstands.later hw⟩

/-- A program that leaves the memory of members alone keeps it faithful. -/
theorem MembersFree.faithful {m : Type → Type} [Monad m] [MonadStateOf World m] [Program m]
    {α : Type} {x : m α} (h : MembersFree x) : Keeps (World.Faithful C K) x :=
  .of_local fun w hw => ⟨w.Remembers, .refl w, fun _ hw' => hw.later hw', h w⟩

/-! ## Looking up -/

/-- The class is the one of its name, and the session's catalog says of its members what the fixed
one says. -/
def World.Follows (C : Catalog) (K : String → Class) (w : World) (cls : Class) : Prop :=
  cls = K cls.name ∧ ∀ s, w.machine.session = some s → ∀ name isStatic,
    s.catalog.findMember? cls name isStatic = C.findMember? cls name isStatic

theorem World.Follows.lookUp? (h : w.Follows C K cls) {s : Session}
    (hs : w.machine.session = some s) (implicitStatic : Bool) (binding : Binding) (name : String) :
    s.catalog.lookUp? implicitStatic cls binding name =
      C.lookUp? implicitStatic (K cls.name) binding name := by
  rw [← h.1]
  unfold Catalog.lookUp?
  simp only [h.2 s hs]

/-- The function and the dispatcher of a group are new. -/
theorem foundMember_stands (cls : Class) (name : String) (isStatic : Bool) (g : MemberGroup)
    (w : World) : ∃ found w', foundMember cls name isStatic g w = (found, w') ∧
      w'.Stands found isStatic g ∧ w.Remembers w' ∧ w'.machine = w.machine := by
  cases g with
  | methods candidates =>
    refine ⟨_, _, rfl, .method (Nat.lt_of_lt_of_eq (Nat.lt_succ_self _) (Store.next_add _ _).symm)
      (fun fn hfn => ?_) (Nat.lt_of_lt_of_eq (Nat.lt_succ_self _) (Store.next_add _ _).symm)
      fun cell hcell => ?_, ?_, rfl⟩
    · have hself := Store.get?_add_next w.functions ⟨.named name, .dispatcher ⟨w.dispatchers.next⟩⟩
      exact Option.some.inj (hfn.symm.trans hself) ▸ rfl
    · have hself := Store.get?_add_next w.dispatchers
        { name, cls, binding := if isStatic then .static else .onObject, candidates }
      exact Option.some.inj (hcell.symm.trans hself) ▸ rfl
    · refine ⟨fun s hs => ⟨s, hs, rfl⟩, ?_, fun i hi f hf => ?_, ?_, fun i hi d hd => ⟨d, ?_, rfl⟩⟩
      · exact Nat.le_trans (Nat.le_succ _) (Nat.le_of_eq (Store.next_add _ _).symm)
      · exact (Store.get?_add_of_lt _ _ hi).symm.trans hf
      · exact Nat.le_trans (Nat.le_succ _) (Nat.le_of_eq (Store.next_add _ _).symm)
      · exact (Store.get?_add_of_lt _ _ hi).symm.trans hd
  | field f => exact ⟨_, w, rfl, .field f _, .refl w, rfl⟩
  | property f => exact ⟨_, w, rfl, .property f _, .refl w, rfl⟩
  | event e => exact ⟨_, w, rfl, .event e _, .refl w, rfl⟩
  | nested cls => exact ⟨_, w, rfl, .nested cls _, .refl w, rfl⟩

theorem World.Stands.withSession (h : w.Stands found isStatic g) (s : Session) :
    (w.withSession s).Stands found isStatic g := by
  cases h with
  | method hf hcode hd hcandidates => exact .method hf hcode hd hcandidates
  | field f => exact .field f _
  | property f => exact .property f _
  | event e => exact .event e _
  | nested cls => exact .nested cls _

section

variable {s : Session} (hs : w.machine.session = some s) {binding : Binding}

include hs

/-- What is remembered is given as it is. -/
theorem member?_of_remembered (hfound : s.members.get? (cls.name, binding, name) = some found) :
    member? cls binding name w = (some found, w) := by
  unfold member?
  rw [bind_of_eq (readSession_eq hs), hfound]
  rfl

/-- What is not remembered is looked up in the catalog, and remembered if it is there. -/
theorem member?_of_new (hnew : s.members.get? (cls.name, binding, name) = none) :
    (s.catalog.lookUp? s.options.implicitStatic cls binding name = none ∧
      member? cls binding name w = (none, w)) ∨
    ∃ isStatic g found w₁,
      s.catalog.lookUp? s.options.implicitStatic cls binding name = some (isStatic, g) ∧
      foundMember cls name isStatic g w = (found, w₁) ∧
      w₁.machine = w.machine ∧ member? cls binding name w = (some found, w₁.withSession
        { s with members := s.members.insert (cls.name, binding, name) found }) := by
  unfold member?
  rw [bind_of_eq (readSession_eq hs), hnew]
  dsimp only
  rw [findGroup_eq]
  cases hgroup : s.catalog.lookUp? s.options.implicitStatic cls binding name with
  | none => exact .inl ⟨rfl, rfl⟩
  | some group =>
    obtain ⟨isStatic, g⟩ := group
    obtain ⟨found, w₁, hmake, -, -, hmachine⟩ := foundMember_stands cls name isStatic g w
    refine .inr ⟨isStatic, g, found, w₁, rfl, hmake, hmachine, ?_⟩
    dsimp only
    rw [bind_of_eq hmake, bind_of_eq (modifySession_eq (hmachine ▸ hs) _)]
    rfl

end

/-- A look-up answers what the catalog says, and remembers it. -/
theorem member?_faithful (h : w.Faithful C K) (hcls : w.Follows C K cls) {s : Session}
    (hs : w.machine.session = some s) (binding : Binding) (name : String) :
    ∃ r w', member? cls binding name w = (r, w') ∧ w'.Faithful C K ∧
      (∃ members, w'.machine.session = some { s with members }) ∧
      ((r = none ∧ C.lookUp? s.options.implicitStatic cls binding name = none) ∨
        ∃ found isStatic g, r = some found ∧
          C.lookUp? s.options.implicitStatic cls binding name = some (isStatic, g) ∧
          w'.Stands found isStatic g) := by
  have hlookUp := hcls.lookUp? hs s.options.implicitStatic binding name
  rw [← hcls.1] at hlookUp
  cases hfound : s.members.get? (cls.name, binding, name) with
  | some found =>
    obtain ⟨isStatic, g, hg, hstands⟩ := h s hs cls.name binding name found hfound
    rw [← hcls.1] at hg
    exact ⟨_, w, member?_of_remembered hs hfound, h, ⟨s.members, hs⟩,
      .inr ⟨found, isStatic, g, rfl, hg, hstands⟩⟩
  | none =>
    obtain ⟨hnone, hmember⟩ | ⟨isStatic, g, found, w₁, hgroup, hmake, -, hmember⟩ :=
      member?_of_new hs hfound
    · exact ⟨none, w, hmember, h, ⟨s.members, hs⟩, .inl ⟨rfl, hlookUp.symm.trans hnone⟩⟩
    obtain ⟨found', w', hmake', hstands, hremembers, -⟩ :=
      foundMember_stands cls name isStatic g w
    obtain ⟨rfl, rfl⟩ := Prod.mk.inj (hmake.symm.trans hmake')
    rw [hlookUp] at hgroup
    refine ⟨some found, _, hmember, ?_, ⟨_, rfl⟩,
      .inr ⟨found, isStatic, g, rfl, hgroup, hstands.withSession _⟩⟩
    intro s' hs' className binding' name' found' hget
    obtain rfl := Option.some.inj hs'
    dsimp only at hget
    rw [Dictionary.get?_insert] at hget
    split at hget
    · rename_i hkey
      cases hkey
      cases hget
      exact ⟨isStatic, g, by rw [← hcls.1]; exact hgroup, hstands.withSession _⟩
    · obtain ⟨isStatic', g', hg', hstands'⟩ := h s hs className binding' name' found' hget
      exact ⟨isStatic', g', hg', (hstands'.later hremembers).withSession _⟩

/-! ## Handlers -/

/-- The object behind the first slot. -/
def World.self? (w : World) : Option (ObjectRef × HostObject) := do
  let ref ← w.objectBehind? (w.machine.value 1)
  let o ← w.objects.get? ref.index
  some (ref, o)

theorem selfObject_eq {ref : ObjectRef} {o : HostObject} (h : w.self? = some (ref, o)) :
    selfObject w = .ok (ref, o) w := by
  obtain ⟨ref', href, h⟩ := Option.bind_eq_some_iff.mp h
  obtain ⟨o', ho, he⟩ := Option.bind_eq_some_iff.mp h
  cases he
  have hbehind : objectBehind? (w.machine.value 1) w = (some ref, w) := congrArg (·, w) href
  have hread : readObject? ref w = (some o, w) := congrArg (·, w) ho
  have hvalue : valueAt 1 w = (w.machine.value 1, w) := rfl
  unfold selfObject
  rw [bind_of_ok (lift_of_eq hvalue), bind_of_ok (lift_of_eq hbehind)]
  dsimp only
  rw [bind_of_ok (lift_of_eq hread)]
  rfl

theorem selfObject_error (h : w.self? = none) :
    ∃ e w', selfObject w = .error e w' ∧ w.Remembers w' := by
  have hremembers := (orderly_selfObject.membersFree w w (.refl w)).2
  have hvalue : valueAt 1 w = (w.machine.value 1, w) := rfl
  have hbehind : objectBehind? (w.machine.value 1) w =
      (w.objectBehind? (w.machine.value 1), w) := rfl
  have hfails : ∃ e w', selfObject w = .error e w' := by
    unfold selfObject
    rw [bind_of_ok (lift_of_eq hvalue), bind_of_ok (lift_of_eq hbehind)]
    unfold World.self? at h
    cases href : w.objectBehind? (w.machine.value 1) with
    | none => exact ⟨_, _, rfl⟩
    | some ref =>
      have hread : readObject? ref w = (w.objects.get? ref.index, w) := rfl
      dsimp only
      rw [bind_of_ok (lift_of_eq hread)]
      cases ho : w.objects.get? ref.index with
      | none => exact ⟨_, _, rfl⟩
      | some o =>
        rw [href] at h
        simp [ho] at h
  obtain ⟨e, w', hrun⟩ := hfails
  rw [hrun] at hremembers
  exact ⟨e, w', hrun, hremembers⟩

theorem self?_of_selfObject {p : ObjectRef × HostObject} (h : selfObject w = .ok p w') :
    w' = w ∧ w.self? = some p := by
  cases hself : w.self? with
  | some q =>
    rw [selfObject_eq hself] at h
    cases h
    exact ⟨rfl, rfl⟩
  | none =>
    obtain ⟨e, w₁, hrun, -⟩ := selfObject_error hself
    rw [hrun] at h
    cases h

theorem exists_session_of_self? {p : ObjectRef × HostObject} (h : w.self? = some p) :
    ∃ s, w.machine.session = some s := by
  obtain ⟨ref, href, -⟩ := Option.bind_eq_some_iff.mp h
  obtain ⟨id, -, href⟩ := Option.bind_eq_some_iff.mp href
  obtain ⟨s, hs, -⟩ := Option.bind_eq_some_iff.mp href
  exact ⟨s, hs⟩

theorem get?_of_self? {ref : ObjectRef} {o : HostObject} (h : w.self? = some (ref, o)) :
    w.objects.get? ref.index = some o := by
  obtain ⟨ref', -, h⟩ := Option.bind_eq_some_iff.mp h
  obtain ⟨o', ho, he⟩ := Option.bind_eq_some_iff.mp h
  cases he
  exact ho

theorem selfType_eq {ref : ObjectRef} {o : HostObject} (h : w.self? = some (ref, o))
    (htarget : o.typeTarget? = some cls) : selfType w = .ok cls w := by
  unfold selfType
  rw [bind_of_ok (selfObject_eq h)]
  dsimp only
  rw [htarget]
  rfl

theorem self?_of_selfType (h : selfType w = .ok cls w') :
    w' = w ∧ ∃ ref o, w.self? = some (ref, o) ∧ o.typeTarget? = some cls := by
  cases hself : w.self? with
  | some p =>
    obtain ⟨ref, o⟩ := p
    unfold selfType at h
    rw [bind_of_ok (selfObject_eq hself)] at h
    dsimp only at h
    cases htarget : o.typeTarget? with
    | some cls' =>
      rw [htarget] at h
      cases h
      exact ⟨rfl, ref, o, rfl, htarget⟩
    | none =>
      rw [htarget] at h
      cases h
  | none =>
    obtain ⟨e, w₁, hrun, -⟩ := selfObject_error hself
    unfold selfType at h
    rw [bind_of_error hrun] at h
    cases h

/-- What reading goes on with when no member has the name. -/
def readOther (ref : ObjectRef) (o : HostObject) : Host Nat := do
  if ← pushElement o then pure ()
  else if ← pushIndexed ref o then pure ()
  else memberNotFound o.cls (← keyName 2)
  return 1

/-- What assigning goes on with when no member has the name. -/
def assignOther (ref : ObjectRef) (o : HostObject) : Host Nat := do
  if ← assignElement ref o then pure ()
  else if ← assignIndexed ref o then pure ()
  else memberNotFound o.cls (← keyName 2)
  return 0

theorem orderly_readOther (ref : ObjectRef) (o : HostObject) :
    Orderly .membersFree (readOther ref o) := by
  refine .bind (orderly_pushElement o) fun element => ?_
  split
  · exact .bind (.pure ()) fun _ => .pure 1
  · refine .bind (orderly_pushIndexed ref o) fun indexed => ?_
    split
    · exact .bind (.pure ()) fun _ => .pure 1
    · exact .bind (.lift (orderly_keyName 2)) fun _ =>
        .bind (orderly_throwCause _) fun _ => .pure 1

theorem orderly_assignOther (ref : ObjectRef) (o : HostObject) :
    Orderly .membersFree (assignOther ref o) := by
  refine .bind (orderly_assignElement ref o) fun element => ?_
  split
  · exact .bind (.pure ()) fun _ => .pure 0
  · refine .bind (orderly_assignIndexed ref o) fun indexed => ?_
    split
    · exact .bind (.pure ()) fun _ => .pure 0
    · exact .bind (.lift (orderly_keyName 2)) fun _ =>
        .bind (orderly_throwCause _) fun _ => .pure 0

section

variable {ref : ObjectRef} {o : HostObject} {r : Option FoundMember}

/-- Reading a name from an object pushes the member that was found, if one was. -/
theorem objectIndex_text (hself : w.self? = some (ref, o)) (hkey : w.machine.value 2 = .text name)
    (hmember : member? o.cls .onObject name w = (r, w')) : objectIndex w =
      (match r with
        | some found => (do
          pushMember (some ref) found
          return 1 : Host Nat)
        | none => readOther ref o) w' := by
  have hnamed : namedMember? o.cls .onObject w = (r.map (name, ·), w') := by
    have hvalue : valueAt 2 w = (.text name, w) := congrArg (·, w) hkey
    unfold namedMember?
    rw [bind_of_eq hvalue]
    dsimp only
    rw [bind_of_eq hmember]
    rfl
  unfold objectIndex
  rw [bind_of_ok (selfObject_eq hself)]
  dsimp only
  rw [bind_of_ok (lift_of_eq hnamed)]
  cases r <;> rfl

theorem objectIndex_other (hself : w.self? = some (ref, o))
    (hkey : ∀ name, w.machine.value 2 ≠ .text name) : objectIndex w = readOther ref o w := by
  have hnamed : namedMember? o.cls .onObject w = (none, w) := by
    have hvalue : valueAt 2 w = (w.machine.value 2, w) := rfl
    unfold namedMember?
    rw [bind_of_eq hvalue]
    cases hv : w.machine.value 2 with
    | text name => exact absurd hv (hkey name)
    | _ => rfl
  unfold objectIndex
  rw [bind_of_ok (selfObject_eq hself)]
  dsimp only
  rw [bind_of_ok (lift_of_eq hnamed)]
  rfl

/-- Assigning to a name of an object assigns the member that was found, if that is one of
instances. -/
theorem objectAssign_text (hself : w.self? = some (ref, o)) (hkey : w.machine.value 2 = .text name)
    (hmember : member? o.cls .onObject name w = (r, w')) {found : FoundMember}
    (hfound : r.filter (!·.isStatic) = some found) : objectAssign w =
      (do
        assignMember (some ref) o.cls name found
        return 0 : Host Nat) w' := by
  have hvalue : valueAt 2 w = (.text name, w) := congrArg (·, w) hkey
  have hnamed : assignNamed ref o.cls w = (do
      assignMember (some ref) o.cls name found
      return true : Host Bool) w' := by
    unfold assignNamed
    rw [bind_of_ok (lift_of_eq hvalue)]
    dsimp only
    rw [bind_of_ok (lift_of_eq hmember), hfound]
  unfold objectAssign
  rw [bind_of_ok (selfObject_eq hself)]
  dsimp only
  cases hrun : assignMember (some ref) o.cls name found w' with
  | ok a w₁ =>
    rw [bind_of_ok hrun] at hnamed ⊢
    rw [bind_of_ok hnamed]
    rfl
  | error e w₁ =>
    rw [bind_of_error hrun] at hnamed ⊢
    rw [bind_of_error hnamed]

/-- Assigning to a name of an object that has no such member of its own: a static member is an
error, and elements and indexed items are tried else. -/
theorem objectAssign_none (hself : w.self? = some (ref, o)) (hkey : w.machine.value 2 = .text name)
    (hmember : member? o.cls .onObject name w = (r, w')) {r' : Option FoundMember} {w'' : World}
    (hfound : r.filter (!·.isStatic) = none) (hstatic : member? o.cls .static name w' = (r', w'')) :
    objectAssign w =
      (if r'.isSome then throwCause (.staticFromInstance o.cls.name name)
        else assignOther ref o : Host Nat) w'' := by
  have hvalue : valueAt 2 w = (.text name, w) := congrArg (·, w) hkey
  have hnamed : assignNamed ref o.cls w =
      (if r'.isSome then throwCause (.staticFromInstance o.cls.name name)
        else pure false : Host Bool) w'' := by
    unfold assignNamed
    rw [bind_of_ok (lift_of_eq hvalue)]
    dsimp only
    rw [bind_of_ok (lift_of_eq hmember), hfound]
    dsimp only
    rw [bind_of_ok (lift_of_eq hstatic)]
  unfold objectAssign
  rw [bind_of_ok (selfObject_eq hself)]
  dsimp only
  cases r' with
  | some found =>
    rw [bind_of_error hnamed]
    rfl
  | none =>
    rw [bind_of_ok hnamed]
    rfl

theorem objectAssign_other (hself : w.self? = some (ref, o))
    (hkey : ∀ name, w.machine.value 2 ≠ .text name) : objectAssign w = assignOther ref o w := by
  have hnamed : assignNamed ref o.cls w = .ok false w := by
    have hvalue : valueAt 2 w = (w.machine.value 2, w) := rfl
    unfold assignNamed
    rw [bind_of_ok (lift_of_eq hvalue)]
    cases hv : w.machine.value 2 with
    | text name => exact absurd hv (hkey name)
    | _ => rfl
  unfold objectAssign
  rw [bind_of_ok (selfObject_eq hself)]
  dsimp only
  rw [bind_of_ok hnamed]
  rfl

/-- The name that the second slot stands for. -/
def World.keyText (w : World) : String :=
  (w.machine.value 2).toText?.getD (w.machine.typeAt 2).name

/-- Reading a name from a type pushes the static member that was found, if one was. -/
theorem typeIndex_name (hself : selfType w = .ok cls w)
    (hkey : ∀ n, w.machine.value 2 ≠ .number n)
    (hmember : member? cls .static w.keyText w = (r, w')) : typeIndex w =
      (match r with
        | some found => (do
          pushMember none found
          return 1 : Host Nat)
        | none => memberNotFound cls w.keyText) w' := by
  have hvalue : valueAt 2 w = (w.machine.value 2, w) := rfl
  have hname : keyName 2 w = (w.keyText, w) := rfl
  unfold typeIndex
  rw [bind_of_ok hself, bind_of_ok (lift_of_eq hvalue)]
  have hrest : (do
      let name ← keyName 2
      match ← member? cls .static name with
      | some found =>
        pushMember none found
        return 1
      | none => memberNotFound cls name : Host Nat) w =
      (match r with
        | some found => (do
          pushMember none found
          return 1 : Host Nat)
        | none => memberNotFound cls w.keyText) w' := by
    rw [bind_of_ok (lift_of_eq hname), bind_of_ok (lift_of_eq hmember)]
  cases hv : w.machine.value 2 with
  | number n => exact absurd hv (hkey n)
  | _ => exact hrest

/-- Assigning to a name of a type assigns the static member that was found, if one was. -/
theorem typeAssign_name (hself : selfType w = .ok cls w)
    (hmember : member? cls .static w.keyText w = (r, w')) : typeAssign w =
      (match r with
        | some found => (do
          assignMember none cls w.keyText found
          return 0 : Host Nat)
        | none => memberNotFound cls w.keyText) w' := by
  have hname : keyName 2 w = (w.keyText, w) := rfl
  unfold typeAssign
  rw [bind_of_ok hself, bind_of_ok (lift_of_eq hname)]
  refine (bind_of_ok (lift_of_eq hmember)).trans ?_
  cases r <;> rfl

end

/-! ## Runs -/

/-- The classes that the first slot leads to are those of the fixed catalog. -/
def World.FollowsSelf (C : Catalog) (K : String → Class) (w : World) : Prop :=
  ∀ ref o, w.self? = some (ref, o) →
    w.Follows C K o.cls ∧ ∀ cls, o.typeTarget? = some cls → w.Follows C K cls

/-- The worlds a session goes through while members are read and assigned, through instances and
types in any order, looked up for any other reason, and while anything else happens that leaves the
memory of members alone. -/
inductive LookupRun (C : Catalog) (K : String → Class) : World → Prop
  | opened {w : World} (hempty : ∀ s, w.machine.session = some s → s.members = []) :
      LookupRun C K w
  | read {w : World} (h : LookupRun C K w) (hself : w.FollowsSelf C K) :
      LookupRun C K (worldAfter (objectIndex w))
  | assigned {w : World} (h : LookupRun C K w) (hself : w.FollowsSelf C K) :
      LookupRun C K (worldAfter (objectAssign w))
  | typeRead {w : World} (h : LookupRun C K w) (hself : w.FollowsSelf C K) :
      LookupRun C K (worldAfter (typeIndex w))
  | typeAssigned {w : World} (h : LookupRun C K w) (hself : w.FollowsSelf C K) :
      LookupRun C K (worldAfter (typeAssign w))
  | lookedUp {w : World} (h : LookupRun C K w) {s : Session} (hs : w.machine.session = some s)
      {cls : Class} (hcls : w.Follows C K cls) (binding : Binding) (name : String) :
      LookupRun C K (member? cls binding name w).2
  | other {w w' : World} (h : LookupRun C K w) (hsame : w.Remembers w') : LookupRun C K w'

/-- A program that leaves the memory of members alone, run from a world where it is faithful. -/
theorem MembersFree.faithful_after {α : Type} {x : Host α} (h : MembersFree x)
    (hw : w.Faithful C K) : (worldAfter (x w)).Faithful C K :=
  (h.faithful w hw).2

/-- A step that fails before anything is looked up. -/
theorem World.Faithful.of_error {α : Type} {x : Host α} (h : w.Faithful C K) (hx : MembersFree x)
    {e : Failure} (hrun : x w = .error e w') : w'.Faithful C K := by
  have hafter := hx.faithful_after h
  rwa [hrun] at hafter

namespace World.Faithful

variable {ref : ObjectRef} {o : HostObject}

/-- A look-up, whose answer a handler goes on with. -/
theorem exists_member (h : w.Faithful C K) (hself : w.self? = some (ref, o))
    (hcls : w.Follows C K cls) (binding : Binding) (name : String) :
    ∃ r w', member? cls binding name w = (r, w') ∧ w'.Faithful C K ∧ w'.Follows C K cls := by
  obtain ⟨s, hs⟩ := exists_session_of_self? hself
  obtain ⟨r, w', hmember, hw', ⟨members, hs'⟩, -⟩ := member?_faithful h hcls hs binding name
  refine ⟨r, w', hmember, hw', hcls.1, fun s' he => ?_⟩
  obtain rfl : { s with members } = s' := Option.some.inj (hs'.symm.trans he)
  exact hcls.2 s hs

theorem objectIndex (h : w.Faithful C K) (hself : w.FollowsSelf C K) :
    (worldAfter (ScriptBridge.objectIndex w)).Faithful C K := by
  cases hrun : selfObject w with
  | error e w' =>
    have hfails : ScriptBridge.objectIndex w = .error e w' := bind_of_error hrun
    rw [hfails]
    exact h.of_error orderly_selfObject.membersFree hrun
  | ok p w' =>
    obtain ⟨ref, o⟩ := p
    obtain ⟨-, hself'⟩ := self?_of_selfObject hrun
    by_cases hkey : ∃ name, w.machine.value 2 = .text name
    · obtain ⟨name, hkey⟩ := hkey
      obtain ⟨r, w₁, hmember, hw₁, -⟩ :=
        h.exists_member hself' (hself ref o hself').1 .onObject name
      rw [objectIndex_text hself' hkey hmember]
      cases r with
      | none => exact (orderly_readOther ref o).membersFree.faithful_after hw₁
      | some found =>
        have hpush : MembersFree (do
            pushMember (some ref) found
            return 1 : Host Nat) :=
          Alike.membersFree (.bind (orderly_pushMember _ _) fun _ => .pure 1)
        exact hpush.faithful_after hw₁
    · rw [objectIndex_other hself' fun name hname => hkey ⟨name, hname⟩]
      exact (orderly_readOther ref o).membersFree.faithful_after h

theorem objectAssign (h : w.Faithful C K) (hself : w.FollowsSelf C K) :
    (worldAfter (ScriptBridge.objectAssign w)).Faithful C K := by
  cases hrun : selfObject w with
  | error e w' =>
    have hfails : ScriptBridge.objectAssign w = .error e w' := bind_of_error hrun
    rw [hfails]
    exact h.of_error orderly_selfObject.membersFree hrun
  | ok p w' =>
    obtain ⟨ref, o⟩ := p
    obtain ⟨-, hself'⟩ := self?_of_selfObject hrun
    by_cases hkey : ∃ name, w.machine.value 2 = .text name
    · obtain ⟨name, hkey⟩ := hkey
      obtain ⟨r, w₁, hmember, hw₁, hcls₁⟩ :=
        h.exists_member hself' (hself ref o hself').1 .onObject name
      obtain ⟨s, hs⟩ := exists_session_of_self? hself'
      cases hfound : r.filter (!·.isStatic) with
      | some found =>
        have hassign : MembersFree (do
            assignMember (some ref) o.cls name found
            return 0 : Host Nat) :=
          Alike.membersFree (.bind (orderly_assignMember _ _ _ _) fun _ => .pure 0)
        rw [objectAssign_text hself' hkey hmember hfound]
        exact hassign.faithful_after hw₁
      | none =>
        obtain ⟨_, _, hmember', _, ⟨members, hs₁⟩, -⟩ :=
          member?_faithful h (hself ref o hself').1 hs .onObject name
        obtain ⟨rfl, rfl⟩ := Prod.mk.inj (hmember.symm.trans hmember')
        obtain ⟨r', w₂, hstatic, hw₂, -⟩ := member?_faithful hw₁ hcls₁ hs₁ .static name
        have hrest : MembersFree (if r'.isSome then
            throwCause (.staticFromInstance o.cls.name name)
            else assignOther ref o : Host Nat) := by
          split
          · exact Alike.membersFree (orderly_throwCause _)
          · exact (orderly_assignOther ref o).membersFree
        rw [objectAssign_none hself' hkey hmember hfound hstatic]
        exact hrest.faithful_after hw₂
    · rw [objectAssign_other hself' fun name hname => hkey ⟨name, hname⟩]
      exact (orderly_assignOther ref o).membersFree.faithful_after h

theorem typeIndex (h : w.Faithful C K) (hself : w.FollowsSelf C K) :
    (worldAfter (ScriptBridge.typeIndex w)).Faithful C K := by
  cases hrun : selfType w with
  | error e w' =>
    have hfails : ScriptBridge.typeIndex w = .error e w' := bind_of_error hrun
    rw [hfails]
    exact h.of_error orderly_selfType.membersFree hrun
  | ok cls w' =>
    obtain ⟨rfl, ref, o, hself', htarget⟩ := self?_of_selfType hrun
    by_cases hkey : ∃ n, w'.machine.value 2 = .number n
    · obtain ⟨n, hkey⟩ := hkey
      have hvalue : valueAt 2 w' = (.number n, w') := congrArg (·, w') hkey
      have harray : MembersFree (do
          let length ← arrayLength (← readSession) n
          let element := HostType.parse cls.name
          pushNewObject (← newArray element (Array.replicate length element.defaultValue))
          return 1 : Host Nat) :=
        Alike.membersFree (.bind (.lift orderly_readSession) fun _ =>
          .bind (orderly_arrayLength _ _) fun _ => .bind (.lift (orderly_newArray _ _)) fun _ =>
            .bind (.lift (orderly_pushNewObject _)) fun _ => .pure 1)
      have hindex : ScriptBridge.typeIndex w' = (do
          let length ← arrayLength (← readSession) n
          let element := HostType.parse cls.name
          pushNewObject (← newArray element (Array.replicate length element.defaultValue))
          return 1 : Host Nat) w' := by
        unfold ScriptBridge.typeIndex
        rw [bind_of_ok hrun, bind_of_ok (lift_of_eq hvalue)]
      rw [hindex]
      exact harray.faithful_after h
    · obtain ⟨r, w₁, hmember, hw₁, -⟩ :=
        h.exists_member hself' ((hself ref o hself').2 cls htarget) .static w'.keyText
      rw [typeIndex_name hrun (fun n hn => hkey ⟨n, hn⟩) hmember]
      cases r with
      | none => exact (Alike.membersFree (orderly_throwCause _)).faithful_after hw₁
      | some found =>
        have hpush : MembersFree (do
            pushMember none found
            return 1 : Host Nat) :=
          Alike.membersFree (.bind (orderly_pushMember _ _) fun _ => .pure 1)
        exact hpush.faithful_after hw₁

theorem typeAssign (h : w.Faithful C K) (hself : w.FollowsSelf C K) :
    (worldAfter (ScriptBridge.typeAssign w)).Faithful C K := by
  cases hrun : selfType w with
  | error e w' =>
    have hfails : ScriptBridge.typeAssign w = .error e w' := bind_of_error hrun
    rw [hfails]
    exact h.of_error orderly_selfType.membersFree hrun
  | ok cls w' =>
    obtain ⟨rfl, ref, o, hself', htarget⟩ := self?_of_selfType hrun
    obtain ⟨r, w₁, hmember, hw₁, -⟩ :=
      h.exists_member hself' ((hself ref o hself').2 cls htarget) .static w'.keyText
    rw [typeAssign_name hrun hmember]
    cases r with
    | none => exact (Alike.membersFree (orderly_throwCause _)).faithful_after hw₁
    | some found =>
      have hassign : MembersFree (do
          assignMember none cls w'.keyText found
          return 0 : Host Nat) :=
        Alike.membersFree (.bind (orderly_assignMember _ _ _ _) fun _ => .pure 0)
      exact hassign.faithful_after hw₁

end World.Faithful

/-- What the session remembers is what the catalog says, in every world of a run. -/
theorem LookupRun.faithful (h : LookupRun C K w) : w.Faithful C K := by
  induction h with
  | opened hempty =>
    intro s hs className binding name found hfound
    rw [hempty s hs] at hfound
    cases hfound
  | read _ hself ih => exact ih.objectIndex hself
  | assigned _ hself ih => exact ih.objectAssign hself
  | typeRead _ hself ih => exact ih.typeIndex hself
  | typeAssigned _ hself ih => exact ih.typeAssign hself
  | lookedUp _ hs hcls binding name ih =>
    obtain ⟨r, w', hmember, hw', -⟩ := member?_faithful ih hcls hs binding name
    rw [hmember]
    exact hw'
  | other _ hsame ih => exact ih.later hsame

/-! ## What instances and types give and take -/

/-- A look-up from a run finds members of one kind. -/
theorem LookupRun.exists_binds (h : LookupRun C K w) (hcls : w.Follows C K cls) {s : Session}
    (hs : w.machine.session = some s) (binding : Binding) (name : String) :
    ∃ r w', member? cls binding name w = (r, w') ∧
      (∃ members, w'.machine.session = some { s with members }) ∧ ∀ found, r = some found →
        ∃ isStatic g, C.lookUp? s.options.implicitStatic cls binding name = some (isStatic, g) ∧
          w'.Binds isStatic found ∧ found.isStatic = isStatic := by
  obtain ⟨r, w', hmember, -, hs', hfound⟩ := member?_faithful h.faithful hcls hs binding name
  refine ⟨r, w', hmember, hs', fun found hr => ?_⟩
  obtain ⟨hnone, -⟩ | ⟨found', isStatic, g, hsome, hlookUp, hstands⟩ := hfound
  · rw [hnone] at hr
    cases hr
  · obtain rfl : found' = found := Option.some.inj (hsome.symm.trans hr)
    have hg := Catalog.lookUp?_isOf hlookUp
    exact ⟨isStatic, g, hlookUp, hstands.binds hg, hstands.isStatic_eq hg⟩

/-- Static members and instances do not mix. Whatever was read and assigned before, reading a name
from an instance gives an instance member, or a static one if the options show these and no member
of instances has the name; assigning to it never reaches a static field or property; and reading and
assigning through a type gives and reaches static members only. -/
theorem LookupRun.isolated (h : LookupRun C K w) (hfollows : w.FollowsSelf C K) {s : Session}
    (hs : w.machine.session = some s) {ref : ObjectRef} {o : HostObject}
    (hself : w.self? = some (ref, o)) (hkey : w.machine.value 2 = .text name) :
    (∃ w', objectIndex w = readOther ref o w' ∨ ∃ found,
      objectIndex w = (do pushMember (some ref) found; return 1 : Host Nat) w' ∧
        (w'.Binds false found ∨ s.options.implicitStatic = true ∧ w'.Binds true found ∧
          ∀ m ∈ C.membersOf o.cls name, m.isStatic = true)) ∧
    (∃ w', objectAssign w = assignOther ref o w' ∨
      objectAssign w = (throwCause (.staticFromInstance o.cls.name name) : Host Nat) w' ∨
      ∃ found, w'.Binds false found ∧ objectAssign w =
        (do assignMember (some ref) o.cls name found; return 0 : Host Nat) w') ∧
    ∀ cls, o.typeTarget? = some cls →
      (∃ w', typeIndex w = memberNotFound cls name w' ∨ ∃ found, w'.Binds true found ∧
        typeIndex w = (do pushMember none found; return 1 : Host Nat) w') ∧
      ∃ w', typeAssign w = memberNotFound cls name w' ∨ ∃ found, w'.Binds true found ∧
        typeAssign w = (do assignMember none cls name found; return 0 : Host Nat) w' := by
  obtain ⟨hcls, htype⟩ := hfollows ref o hself
  obtain ⟨r, w₁, hmember, ⟨members, hs₁⟩, hfound⟩ := h.exists_binds hcls hs .onObject name
  refine ⟨⟨w₁, ?_⟩, ?_, fun cls htarget => ?_⟩
  · rw [objectIndex_text hself hkey hmember]
    cases r with
    | none => exact .inl rfl
    | some found =>
      obtain ⟨isStatic, g, hlookUp, hbinds, -⟩ := hfound found rfl
      cases isStatic with
      | false => exact .inr ⟨found, rfl, .inl hbinds⟩
      | true =>
        obtain ⟨hshown, hall⟩ := Catalog.shows_of_lookUp? hlookUp
        exact .inr ⟨found, rfl, .inr ⟨hshown, hbinds, hall⟩⟩
  · cases hfilter : r.filter (!·.isStatic) with
    | some found =>
      obtain ⟨hr, hinstance⟩ := Option.filter_eq_some_iff.mp hfilter
      obtain ⟨isStatic, g, -, hbinds, hstatic⟩ := hfound found hr
      obtain rfl : isStatic = false := hstatic.symm.trans (Bool.not_eq_true' _ ▸ hinstance)
      exact ⟨w₁, .inr (.inr ⟨found, hbinds, objectAssign_text hself hkey hmember hfilter⟩)⟩
    | none =>
      obtain ⟨r', w₂, hstatic⟩ : ∃ r' w₂, member? o.cls .static name w₁ = (r', w₂) := ⟨_, _, rfl⟩
      refine ⟨w₂, ?_⟩
      rw [objectAssign_none hself hkey hmember hfilter hstatic]
      cases r' with
      | none => exact .inl rfl
      | some found => exact .inr (.inl rfl)
  · have hname : w.keyText = name := by
      unfold World.keyText
      rw [hkey]
      rfl
    have hnumber (n : Number) : w.machine.value 2 ≠ .number n := by
      rw [hkey]
      exact Value.noConfusion
    obtain ⟨r', w₂, hstatic, -, hfound'⟩ := h.exists_binds (htype cls htarget) hs .static name
    have hself' := selfType_eq hself htarget
    have hbinds (found : FoundMember) (hr : r' = some found) : w₂.Binds true found := by
      obtain ⟨isStatic, g, hlookUp, hbinds, -⟩ := hfound' found hr
      exact Catalog.static_of_lookUp? hlookUp ▸ hbinds
    rw [← hname] at hstatic ⊢
    refine ⟨⟨w₂, ?_⟩, w₂, ?_⟩
    · rw [typeIndex_name hself' hnumber hstatic]
      cases r' with
      | none => exact .inl rfl
      | some found => exact .inr ⟨found, hbinds found rfl, rfl⟩
    · rw [typeAssign_name hself' hstatic]
      cases r' with
      | none => exact .inl rfl
      | some found => exact .inr ⟨found, hbinds found rfl, rfl⟩

/-- A class with a static field and one of instances under one name. -/
def tallyClass : Class :=
  let field (isStatic : Bool) : Field :=
    { name := "count", type := .int .i32, isStatic
      get := some (.slot "count"), set := some (.slot "count") }
  { name := "Demo.Tally", members := [.field (field true), .field (field false)] }

/-- A new object lies in the first slot and a name in the second. -/
def World.asking (w : World) (cls : Class) (data : ObjectData) (name : String) : World :=
  (push (.text name) (pushObject ⟨w.objects.next⟩ (newObject cls data w).2).2).2

theorem self?_asking {data : ObjectData}
    (hbehind : (w.asking cls data name).objectBehind? ((w.asking cls data name).machine.value 1) =
      some ⟨w.objects.next⟩) :
    (w.asking cls data name).self? = some (⟨w.objects.next⟩, ⟨cls, data⟩) := by
  have hcell : (w.asking cls data name).objects.get? w.objects.next = some ⟨cls, data⟩ := by
    have hshown := World.shown_of_objectValue (o := ⟨w.objects.next⟩)
      (w := (newObject cls data w).2) rfl
    exact (congrArg (Store.get? · _) hshown.objects).trans (Store.get?_add_next _ _)
  unfold World.self?
  rw [hbehind]
  show ((w.asking cls data name).objects.get? w.objects.next).bind _ = _
  rw [hcell]
  rfl

/-- A session in which the name of a field is asked of an object that shares it with its class. -/
def World.asked : World := (World.opened {} {} .build).asking tallyClass (.bag {}) "count"

/-- An object with a static field and one of its own under one name gives and takes its own. -/
theorem isolated_asked : ∃ s ref, World.asked.machine.session = some s ∧
    LookupRun s.catalog (fun _ => tallyClass) World.asked ∧
    World.asked.FollowsSelf s.catalog (fun _ => tallyClass) ∧
    World.asked.self? = some (ref, ⟨tallyClass, .bag {}⟩) ∧
    World.asked.machine.value 2 = .text "count" ∧
    ∃ w', objectIndex World.asked = readOther ref ⟨tallyClass, .bag {}⟩ w' ∨ ∃ found,
      objectIndex World.asked = (do pushMember (some ref) found; return 1 : Host Nat) w' ∧
        (w'.Binds false found ∨ s.options.implicitStatic = true ∧ w'.Binds true found ∧
          ∀ m ∈ s.catalog.membersOf tallyClass "count", m.isStatic = true) := by
  have hmembers : World.asked.machine.session.map (·.members.isEmpty) = some true := by
    decide +kernel
  have hkey : World.asked.machine.value 2 = .text "count" := by decide +kernel
  have hbehind : World.asked.objectBehind? (World.asked.machine.value 1) =
      some ⟨(World.opened {} {} .build).objects.next⟩ := by decide +kernel
  have hself : ∃ ref, World.asked.self? = some (ref, ⟨tallyClass, .bag {}⟩) :=
    ⟨_, self?_asking hbehind⟩
  clear hbehind
  generalize World.asked = w at *
  obtain ⟨ref, hself⟩ := hself
  obtain ⟨s, hs, hempty⟩ := Option.map_eq_some_iff.mp hmembers
  have hrun : LookupRun s.catalog (fun _ => tallyClass) w := .opened fun s' hs' => by
    obtain rfl : s = s' := Option.some.inj (hs.symm.trans hs')
    exact List.isEmpty_iff.mp hempty
  have hfollows : w.FollowsSelf s.catalog (fun _ => tallyClass) := by
    intro ref' o ho
    obtain ⟨rfl, rfl⟩ := Prod.mk.inj (Option.some.inj (hself.symm.trans ho))
    refine ⟨⟨rfl, fun s' hs' _ _ => ?_⟩, fun cls htarget => nomatch htarget⟩
    rw [Option.some.inj (hs.symm.trans hs')]
  exact ⟨s, ref, hs, hrun, hfollows, hself, hkey, (hrun.isolated hfollows hs hself hkey).1⟩

end ScriptBridge
