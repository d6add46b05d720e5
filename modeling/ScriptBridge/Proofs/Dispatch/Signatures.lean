import ScriptBridge.Proofs.Bridge.Carrying
import ScriptBridge.Proofs.Dispatch.Overriding
import ScriptBridge.Proofs.Host.TypeNames

/-!
# Selection by signature

A script can ask for the one method or constructor that takes certain types, which it gives by name.
The names are read as types and written again, so blanks in them do not matter, and compared with
the names of the parameter types.

1. `Method.FirstWith`, `Catalog.FirstDeclared`: what is searched for, the first declaration with a
   signature, nearest class first. `methodBySignature?_eq_some_iff` says that the look-up finds it.
2. `types_of_signature`: equal names are equal types wherever types can be told apart by name.
3. `methodBySignature_eq`, `constructorBySignature_eq`: what the two functions come to.
4. `signature_selects`: what is returned calls exactly the method that was asked for.
-/

namespace ScriptBridge

variable {w w' : World} {m : Method}

/-! ## First declarations -/

/-- The method is the first of the list with a signature. -/
def Method.FirstWith (m : Method) (signature : List String) (methods : List Method) : Prop :=
  ∃ before after, methods = before ++ m :: after ∧ m.signature = signature ∧
    ∀ m' ∈ before, m'.signature ≠ signature

theorem Method.firstWith_iff {signature : List String} {methods : List Method} :
    m.FirstWith signature methods ↔ methods.find? (·.signature == signature) = some m := by
  rw [List.find?_eq_some_iff_append]
  constructor
  · rintro ⟨before, after, hsplit, hm, hbefore⟩
    exact ⟨beq_iff_eq.mpr hm, before, after, hsplit, fun m' hm' => by simpa using hbefore m' hm'⟩
  · rintro ⟨hm, before, after, hsplit, hbefore⟩
    exact ⟨before, after, hsplit, beq_iff_eq.mp hm, fun m' hm' => by simpa using hbefore m' hm'⟩

namespace Catalog

variable {c : Catalog} {cls : Class} {name : String} {signature : List String}

/-- The method is the first one of a name with a signature along the bases of a class, and the walk
along the bases comes to its class. -/
def FirstDeclared (c : Catalog) (cls : Class) (name : String) (signature : List String)
    (m : Method) : Prop :=
  ∃ i base, i < walkLimit ∧ c.ancestor? i cls = some base ∧
    m.FirstWith signature (base.methodsNamed name) ∧
    ∀ j < i, ∀ nearer, c.ancestor? j cls = some nearer →
      ∀ m' ∈ nearer.methodsNamed name, m'.signature ≠ signature

/-- No class that the walk along the bases comes to has a method of the name with the signature. -/
def Undeclared (c : Catalog) (cls : Class) (name : String) (signature : List String) : Prop :=
  ∀ i < walkLimit, ∀ base, c.ancestor? i cls = some base →
    ∀ m ∈ base.methodsNamed name, m.signature ≠ signature

theorem hierarchy_getElem? (c : Catalog) (cls : Class) (i : Nat) :
    (c.hierarchy cls)[i]? = if i < walkLimit then c.ancestor? i cls else none :=
  basesFrom_getElem? walkLimit i cls

theorem methodBySignature?_eq_findSome? :
    c.methodBySignature? cls name signature = (c.hierarchy cls).findSome? fun base =>
      (base.methodsNamed name).find? (·.signature == signature) := by
  unfold methodBySignature? membersOf
  rw [List.filterMap_flatMap, List.find?_flatMap]
  rfl

theorem methodBySignature?_eq_some_iff :
    c.methodBySignature? cls name signature = some m ↔ c.FirstDeclared cls name signature m := by
  rw [methodBySignature?_eq_findSome?, List.findSome?_eq_some_iff]
  constructor
  · rintro ⟨before, base, after, hsplit, hfound, hnone⟩
    have hbase := c.hierarchy_getElem? cls before.length
    rw [hsplit, List.getElem?_append_right (Nat.le_refl _), Nat.sub_self,
      List.getElem?_cons_zero] at hbase
    split at hbase
    · rename_i hlimit
      refine ⟨before.length, base, hlimit, hbase.symm, Method.firstWith_iff.mpr hfound, ?_⟩
      intro j hj nearer hnearer m' hm'
      have hget := c.hierarchy_getElem? cls j
      rw [if_pos (by omega), hnearer, hsplit, List.getElem?_append_left hj] at hget
      simpa using List.find?_eq_none.mp (hnone nearer (List.mem_of_getElem? hget)) m' hm'
    · cases hbase
  · rintro ⟨i, base, hlimit, hbase, hfirst, hnone⟩
    have hget := c.hierarchy_getElem? cls i
    rw [if_pos hlimit, hbase] at hget
    obtain ⟨hi, hget⟩ := List.getElem?_eq_some_iff.mp hget
    refine ⟨(c.hierarchy cls).take i, base, (c.hierarchy cls).drop (i + 1), ?_,
      Method.firstWith_iff.mp hfirst, fun nearer hnearer => ?_⟩
    · rw [← hget, List.getElem_cons_drop, List.take_append_drop]
    · obtain ⟨j, hj, hnearer⟩ := List.mem_take_iff_getElem.mp hnearer
      have hj' := c.hierarchy_getElem? cls j
      rw [if_pos (by omega), List.getElem?_eq_getElem (by omega), hnearer] at hj'
      refine List.find?_eq_none.mpr fun m' hm' => ?_
      simpa using hnone j (by omega) nearer hj'.symm m' hm'

theorem methodBySignature?_eq_none_iff :
    c.methodBySignature? cls name signature = none ↔ c.Undeclared cls name signature := by
  rw [methodBySignature?_eq_findSome?, List.findSome?_eq_none_iff]
  constructor
  · intro h i hi base hbase m hm
    have hget := c.hierarchy_getElem? cls i
    rw [if_pos hi, hbase] at hget
    simpa using List.find?_eq_none.mp (h base (List.mem_of_getElem? hget)) m hm
  · intro h base hbase
    obtain ⟨i, hget⟩ := List.getElem?_of_mem hbase
    rw [hierarchy_getElem?] at hget
    split at hget
    · rename_i hi
      refine List.find?_eq_none.mpr fun m hm => ?_
      simpa using h i hi base hget m hm
    · cases hget

end Catalog

/-! ## Types that arguments name -/

/-- The types that the texts among the values from a slot on name, in order. -/
def Machine.namedTypes (m : Machine) (first : Int) : List HostType :=
  ((m.valuesFrom first).filterMap Value.toText?).map HostType.parse

theorem signatureArguments_eq (first : Int) (w : World) :
    signatureArguments first w = ((w.machine.namedTypes first).map HostType.name, w) := by
  show ((((w.machine.valuesFrom first).filterMap Value.toText?).map fun s =>
    (HostType.parse s).name), w) = _
  unfold Machine.namedTypes
  rw [List.map_map]
  rfl

theorem Machine.wellNamed_namedTypes (m : Machine) (first : Int) :
    ∀ t ∈ m.namedTypes first, t.WellNamed := by
  intro t ht
  obtain ⟨s, -, rfl⟩ := List.mem_map.mp ht
  exact HostType.wellNamed_parse s

/-- The method has one parameter for each type, in order; the types are equal where parameters are
of types that can be told apart by name. -/
structure Method.TakesExactly (m : Method) (types : List HostType) : Prop where
  count : m.params.length = types.length
  names : m.params.map (·.type.name) = types.map HostType.name
  types : (∀ p ∈ m.params, p.type.WellNamed) → m.params.map (·.type) = types

theorem map_name_inj {ts us : List HostType} (ht : ∀ t ∈ ts, t.WellNamed)
    (hu : ∀ u ∈ us, u.WellNamed) (h : ts.map HostType.name = us.map HostType.name) : ts = us := by
  have hback {l : List HostType} (hl : ∀ t ∈ l, t.WellNamed) :
      (l.map HostType.name).map HostType.parse = l := by
    rw [List.map_map]
    exact (List.map_congr_left fun t ht => HostType.parse_name (hl t ht)).trans (List.map_id l)
  rw [← hback ht, h, hback hu]

theorem Method.takesExactly_of_signature {types : List HostType}
    (htypes : ∀ t ∈ types, t.WellNamed) (h : m.signature = types.map HostType.name) :
    m.TakesExactly types where
  count := by simpa [Method.signature] using congrArg List.length h
  names := h
  types hparams := by
    refine map_name_inj (fun t ht => ?_) htypes (by rw [List.map_map]; exact h)
    obtain ⟨p, hp, rfl⟩ := List.mem_map.mp ht
    exact hparams p hp

/-! ## The two functions -/

/-- What is asked for: the function that was called, the types that its arguments name, and the
dispatcher of the one method that is to be called. -/
inductive World.Selects (w : World) : Handler → List HostType → Method → Dispatcher → Prop
  | method {cls : Class} {target : Option ObjectRef} {name : String} {m : Method}
    (hcls : classArgument w = .ok (cls, target) w) (hname : w.machine.value 2 = .text name)
    (hfirst : w.catalog.FirstDeclared cls name ((w.machine.namedTypes 3).map HostType.name) m) :
    Selects w .methodBySignature (w.machine.namedTypes 3) m {
      name, cls, binding := if m.isStatic then .static else .onObject, candidates := [m]
      bound := if m.isStatic then none else target }
  | constructor {cls : Class} {target : Option ObjectRef} {m : Method}
    (hcls : classArgument w = .ok (cls, target) w)
    (hfirst : m.FirstWith ((w.machine.namedTypes 2).map HostType.name) cls.constructors) :
    Selects w .constructorBySignature (w.machine.namedTypes 2) m {
      name := ".ctor", cls, binding := .constructor, candidates := [m] }

/-- Nothing declares what is asked for, and the cause that says so. -/
inductive World.Misses (w : World) : Handler → Cause → Prop
  | method {cls : Class} {target : Option ObjectRef} {name : String}
    (hcls : classArgument w = .ok (cls, target) w) (hname : w.machine.value 2 = .text name)
    (hnone : w.catalog.Undeclared cls name ((w.machine.namedTypes 3).map HostType.name)) :
    Misses w .methodBySignature (.memberNotFound cls.name
      (name ++ "(" ++ ", ".intercalate ((w.machine.namedTypes 3).map HostType.name) ++ ")"))
  | constructor {cls : Class} {target : Option ObjectRef}
    (hcls : classArgument w = .ok (cls, target) w)
    (hnone : ∀ m ∈ cls.constructors,
      m.signature ≠ (w.machine.namedTypes 2).map HostType.name) :
    Misses w .constructorBySignature (.memberNotFound cls.name
      (".ctor(" ++ ", ".intercalate ((w.machine.namedTypes 2).map HostType.name) ++ ")"))

/-- One value is returned, a function that calls a dispatcher. -/
def World.ReturnsCall (w : World) (n : Nat) (w' : World) (d : Dispatcher) : Prop :=
  n = 1 ∧ ∃ f ref, w'.machine.stack = w.machine.stack.push (.function f) ∧
    w'.functions.get? f.index = some ⟨.named d.name, .dispatcher ref⟩ ∧
    w'.dispatchers.get? ref.index = some d

/-- The world with a new dispatcher and a function that calls it on top of the stack. -/
def World.withCall (w : World) (d : Dispatcher) : World :=
  { w with
    dispatchers := w.dispatchers.add d
    functions := w.functions.add ⟨.named d.name, .dispatcher ⟨w.dispatchers.next⟩⟩
    machine := w.machine.push (.function ⟨w.functions.next⟩) }

theorem World.returnsCall_withCall (w : World) (d : Dispatcher) :
    w.ReturnsCall 1 (w.withCall d) d :=
  ⟨rfl, _, _, rfl, Store.get?_add_next _ _, Store.get?_add_next _ _⟩

section

variable {cls : Class} {target : Option ObjectRef}

theorem methodBySignature_eq {name : String} (hcls : classArgument w = .ok (cls, target) w)
    (hname : w.machine.value 2 = .text name) :
    methodBySignature w =
      match w.catalog.methodBySignature? cls name
        ((w.machine.namedTypes 3).map HostType.name) with
      | some m => .ok 1 (w.withCall {
          name, cls, binding := if m.isStatic then .static else .onObject, candidates := [m]
          bound := if m.isStatic then none else target })
      | none => throwCause (.memberNotFound cls.name
          (name ++ "(" ++ ", ".intercalate ((w.machine.namedTypes 3).map HostType.name) ++ ")")) w := by
  have hread : readSession w = ((readSession w).1, w) := rfl
  have hvalue : valueAt 2 w = (.text name, w) := by
    show (w.machine.value 2, w) = _
    rw [hname]
  unfold methodBySignature
  rw [bind_of_ok hcls]
  dsimp only
  rw [bind_of_ok (lift_of_eq hvalue)]
  dsimp only
  rw [bind_of_ok (lift_of_eq (signatureArguments_eq 3 w)), lift_bind]
  unfold bindBySignature
  rw [bind_of_eq hread]
  show _ = match (readSession w).1.catalog.methodBySignature? cls name _ with
    | some m => _
    | none => _
  cases (readSession w).1.catalog.methodBySignature? cls name
    ((w.machine.namedTypes 3).map HostType.name) <;> rfl

theorem constructorBySignature_eq (hcls : classArgument w = .ok (cls, target) w) :
    constructorBySignature w =
      match cls.constructors.find?
        (·.signature == (w.machine.namedTypes 2).map HostType.name) with
      | some m => .ok 1 (w.withCall {
          name := ".ctor", cls, binding := .constructor, candidates := [m] })
      | none => throwCause (.memberNotFound cls.name
          (".ctor(" ++ ", ".intercalate ((w.machine.namedTypes 2).map HostType.name) ++ ")")) w := by
  unfold constructorBySignature
  rw [bind_of_ok hcls]
  dsimp only
  rw [bind_of_ok (lift_of_eq (signatureArguments_eq 2 w))]
  cases cls.constructors.find?
    (·.signature == (w.machine.namedTypes 2).map HostType.name) <;> rfl

/-- Finding the class only looks. -/
theorem classArgument_ok (h : classArgument w = .ok (cls, target) w') : w' = w := by
  unfold classArgument at h
  rw [lift_bind, lift_bind] at h
  have hbehind : objectBehind? (valueAt 1 w).1 (valueAt 1 w).2 =
    (w.objectBehind? (w.machine.value 1), w) := rfl
  rw [hbehind] at h
  cases hobject : w.objectBehind? (w.machine.value 1) with
  | none =>
    rw [hobject] at h
    cases h
  | some ref =>
    rw [hobject] at h
    dsimp only at h
    have hread : readObject? ref w = (w.objects.get? ref.index, w) := rfl
    rw [bind_of_ok (lift_of_eq hread)] at h
    cases htype : ((w.objects.get? ref.index).getD ⟨default, .foreign⟩).typeTarget? <;>
    · rw [htype] at h
      cases h
      rfl

end

/-! ## What the functions do -/

/-- The code of the two functions. -/
def Handler.selection? : Handler → Option (Host Nat)
  | methodBySignature => some ScriptBridge.methodBySignature
  | constructorBySignature => some ScriptBridge.constructorBySignature
  | _ => none

theorem Handler.run_selection {h : Handler} {x : Host Nat} (hx : h.selection? = some x)
    (E : Engine) : h.run E = inSession x := by
  cases h with
  | methodBySignature | constructorBySignature =>
    cases hx
    rfl
  | _ => cases hx

namespace World

variable {h : Handler} {x : Host Nat} {types : List HostType} {d : Dispatcher} {cause : Cause}

theorem Selects.run (hx : h.selection? = some x) (hselects : w.Selects h types m d) :
    x w = .ok 1 (w.withCall d) := by
  cases hselects with
  | method hcls hname hfirst =>
    cases hx
    rw [methodBySignature_eq hcls hname, Catalog.methodBySignature?_eq_some_iff.mpr hfirst]
  | constructor hcls hfirst =>
    cases hx
    rw [constructorBySignature_eq hcls, Method.firstWith_iff.mp hfirst]

theorem Misses.throws (hx : h.selection? = some x) (hmisses : w.Misses h cause) :
    Throws x w ⟨w.nextException, cause⟩ := by
  cases hmisses with
  | method hcls hname hnone =>
    cases hx
    refine ⟨{ w with nextException := w.nextException + 1 }, ?_⟩
    rw [methodBySignature_eq hcls hname, Catalog.methodBySignature?_eq_none_iff.mpr hnone]
    rfl
  | constructor hcls hnone =>
    cases hx
    refine ⟨{ w with nextException := w.nextException + 1 }, ?_⟩
    rw [constructorBySignature_eq hcls, List.find?_eq_none.mpr (by simpa using hnone)]
    rfl

theorem Selects.takesExactly (hselects : w.Selects h types m d) : m.TakesExactly types := by
  cases hselects with
  | method hcls hname hfirst =>
    obtain ⟨_, _, _, _, ⟨_, _, _, hm, _⟩, _⟩ := hfirst
    exact Method.takesExactly_of_signature (w.machine.wellNamed_namedTypes 3) hm
  | constructor hcls hfirst =>
    obtain ⟨_, _, _, hm, _⟩ := hfirst
    exact Method.takesExactly_of_signature (w.machine.wellNamed_namedTypes 2) hm

/-- A value is returned for nothing but a class and, for a method, a name that is a text. -/
theorem selects_of_ok {n : Nat} (hx : h.selection? = some x) (hrun : x w = .ok n w') :
    ∃ types m d, w.Selects h types m d := by
  have hclass {β : Type} {f : Class × Option ObjectRef → Host β} {b : β}
      (hbind : (classArgument >>= f) w = .ok b w') :
      ∃ cls target, classArgument w = .ok (cls, target) w := by
    cases hcls : classArgument w with
    | error e w₁ =>
      rw [bind_of_error hcls] at hbind
      cases hbind
    | ok found w₁ =>
      obtain ⟨cls, target⟩ := found
      obtain rfl := classArgument_ok hcls
      exact ⟨cls, target, rfl⟩
  cases h with
  | methodBySignature =>
    cases hx
    obtain ⟨cls, target, hcls⟩ := hclass hrun
    have hvalue : valueAt 2 w = (w.machine.value 2, w) := rfl
    cases hname : w.machine.value 2 with
    | text name =>
      rw [methodBySignature_eq hcls hname] at hrun
      cases hfound : w.catalog.methodBySignature? cls name
          ((w.machine.namedTypes 3).map HostType.name) with
      | none =>
        rw [hfound] at hrun
        cases hrun
      | some m =>
        exact ⟨_, m, _, .method hcls hname (Catalog.methodBySignature?_eq_some_iff.mp hfound)⟩
    | _ =>
      unfold ScriptBridge.methodBySignature at hrun
      rw [bind_of_ok hcls] at hrun
      dsimp only at hrun
      rw [bind_of_ok (lift_of_eq hvalue), hname] at hrun
      cases hrun
  | constructorBySignature =>
    cases hx
    obtain ⟨cls, target, hcls⟩ := hclass hrun
    rw [constructorBySignature_eq hcls] at hrun
    cases hfound : cls.constructors.find?
        (·.signature == (w.machine.namedTypes 2).map HostType.name) with
    | none =>
      rw [hfound] at hrun
      cases hrun
    | some m => exact ⟨_, m, _, .constructor hcls (Method.firstWith_iff.mpr hfound)⟩
  | _ => cases hx

end World

theorem inSession_of_some {x : Host Nat} (hsession : w.session?.isSome) :
    inSession x w = asScript x w := by
  have hnone : w.session?.isNone = false := by
    rw [Option.isNone_eq_false_iff]
    exact hsession
  unfold inSession
  rw [get_bind, hnone, if_neg Bool.false_ne_true]

theorem inSession_ok {x : Host Nat} {n : Nat} (h : inSession x w = .ok n w') :
    x w = .ok n w' := by
  cases hsession : w.session? with
  | none =>
    unfold inSession at h
    rw [get_bind, hsession, Option.isNone_none, if_pos rfl, raiseCause_bind] at h
    exact absurd h (raiseCause_ne_ok _ _)
  | some s =>
    rw [inSession_of_some (by rw [hsession]; rfl)] at h
    unfold asScript at h
    cases hx : x w with
    | ok a w₁ =>
      rw [bind_of_ok (lift_of_eq (attempt_of_ok hx))] at h
      cases h
      rfl
    | error e w₁ =>
      rw [bind_of_ok (lift_of_eq (attempt_of_error hx))] at h
      cases e with
      | exception e =>
        obtain ⟨r, w₂, herror⟩ := raiseException_error (α := Nat) e.innermost w₁
        exact absurd (herror.symm.trans h) nofun
      | exhausted => cases h

namespace World

variable {h : Handler} {types : List HostType} {d : Dispatcher} {cause : Cause}

theorem Selects.returns (hselects : w.Selects h types m d) (E : Engine)
    (hsession : w.session?.isSome) : h.run E w = .ok 1 (w.withCall d) := by
  obtain ⟨x, hx⟩ : ∃ x, h.selection? = some x := by cases hselects <;> exact ⟨_, rfl⟩
  rw [Handler.run_selection hx E, inSession_of_some hsession]
  unfold asScript
  rw [bind_of_ok (lift_of_eq (attempt_of_ok (hselects.run hx)))]
  rfl

theorem Misses.raises (hmisses : w.Misses h cause) (E : Engine) (hsession : w.session?.isSome) :
    Raises (h.run E) w ⟨w.nextException, cause⟩ := by
  obtain ⟨x, hx⟩ : ∃ x, h.selection? = some x := by cases hmisses <;> exact ⟨_, rfl⟩
  have hplain : (Exception.mk w.nextException cause).innermost = ⟨w.nextException, cause⟩ := by
    cases hmisses <;> rfl
  obtain ⟨v, w', hrun, hv⟩ := (hmisses.throws hx).asScript
  rw [hplain] at hv
  rw [Handler.run_selection hx E]
  exact ⟨v, w', (inSession_of_some hsession).trans hrun, hv⟩

end World

/-- What is returned calls one method only, the first that is declared with the types that were
named, one parameter for each. It is returned whenever there is one, and otherwise the member is not
found. -/
theorem signature_selects (E : Engine) (w : World) (h : Handler)
    (hh : h = .methodBySignature ∨ h = .constructorBySignature) :
    (∀ n w', h.run E w = .ok n w' → ∃ types m d,
      w.Selects h types m d ∧ m.TakesExactly types ∧ w.ReturnsCall n w' d) ∧
    (w.session?.isSome →
      (∀ types m d, w.Selects h types m d → ∃ n w', h.run E w = .ok n w') ∧
      ∀ cause, w.Misses h cause → ∃ e, Raises (h.run E) w e ∧ e.cause = cause) := by
  refine ⟨fun n w' hrun => ?_, fun hsession =>
    ⟨fun types m d hselects => ?_, fun cause hmisses => ?_⟩⟩
  · obtain ⟨x, hx⟩ : ∃ x, h.selection? = some x := by
      obtain rfl | rfl := hh <;> exact ⟨_, rfl⟩
    rw [Handler.run_selection hx E] at hrun
    have hok := inSession_ok hrun
    obtain ⟨types, m, d, hselects⟩ := World.selects_of_ok hx hok
    rw [hselects.run hx] at hok
    cases hok
    exact ⟨types, m, d, hselects, hselects.takesExactly, w.returnsCall_withCall d⟩
  · exact ⟨1, w.withCall d, hselects.returns E hsession⟩
  · exact ⟨_, hmisses.raises E hsession, rfl⟩

/-! ## Overloads of one name -/

def overload (name : String) (types : List HostType) : Method where
  name := name
  declaringType := "Demo.Overloads"
  params := types.map fun t => { type := t }
  ret := .void
  isStatic := true
  body := some (.statements [])

/-- A class with methods for one integer and for nothing, and one for objects of a class that has
the name of the integers. -/
def overloadClass : Class where
  name := "Demo.Overloads"
  members := [.method (overload "Run" [.int .i32]), .method (overload "Run" []),
    .method (overload "Odd" [.named "i32"])]

/-- A call with the proxy of the class in the first slot. -/
def overloadWorld (arguments : List Value) : World where
  userdata := ⟨#[some { payload := .proxy 1, metatable := none, home := 0 }]⟩
  objects := ⟨#[some ⟨typeClass, .typeOf overloadClass⟩]⟩
  machine := {
    id := 0, registry := ⟨0⟩, globals := ⟨1⟩, appData := .session
    stack := (.userdata ⟨0⟩ :: arguments).toArray
    session := some {
      id := 0, options := {}, adapters := .build, objects := ⟨2⟩
      catalog := Catalog.initial.register overloadClass
      registry := (Registry.expose (·.index) {} ⟨0⟩).2 } }

theorem overloadWorld_class (name : String) (type : Value) :
    classArgument (overloadWorld [.text name, type]) =
      .ok (overloadClass, none) (overloadWorld [.text name, type]) := rfl

theorem overloadWorld_name (name : String) (type : Value) :
    (overloadWorld [.text name, type]).machine.value 2 = .text name := rfl

/-- A text with blanks selects the method for an integer, and one that no method takes is not
found. -/
theorem signature_selects_integer :
    (∃ n w' m d, Handler.run .exhausted .methodBySignature
        (overloadWorld [.text "Run", .text " i32 "]) = .ok n w' ∧
      (overloadWorld [.text "Run", .text " i32 "]).Selects .methodBySignature [.int .i32] m d ∧
      m.TakesExactly [.int .i32] ∧
      (overloadWorld [.text "Run", .text " i32 "]).ReturnsCall n w' d) ∧
    ∃ e, Raises (Handler.run .exhausted .methodBySignature)
        (overloadWorld [.text "Run", .text "f64"]) e ∧
      e.cause = .memberNotFound "Demo.Overloads" "Run(f64)" := by
  have hselects : (overloadWorld [.text "Run", .text " i32 "]).Selects .methodBySignature
      [.int .i32] (overload "Run" [.int .i32]) _ :=
    .method (overloadWorld_class _ _) (overloadWorld_name _ _)
      (Catalog.methodBySignature?_eq_some_iff.mp rfl)
  have hmisses : (overloadWorld [.text "Run", .text "f64"]).Misses .methodBySignature _ :=
    .method (overloadWorld_class _ _) (overloadWorld_name _ _)
      (Catalog.methodBySignature?_eq_none_iff.mp rfl)
  obtain ⟨hexact, hany⟩ := signature_selects .exhausted
    (overloadWorld [.text "Run", .text " i32 "]) .methodBySignature (.inl rfl)
  obtain ⟨n, w', hrun⟩ := (hany rfl).1 _ _ _ hselects
  obtain ⟨types, m, d, hfound, htakes, hreturns⟩ := hexact n w' hrun
  have htypes : types = [.int .i32] := by
    cases hfound
    rfl
  subst htypes
  obtain ⟨e, hraises, hcause⟩ := ((signature_selects .exhausted
    (overloadWorld [.text "Run", .text "f64"]) .methodBySignature (.inl rfl)).2 rfl).2 _ hmisses
  exact ⟨⟨n, w', m, d, hrun, hfound, htakes, hreturns⟩, e, hraises, hcause.trans rfl⟩

/-- An argument that is no text is passed over, so a nil in the place of a type selects the method
for nothing; and a class may have the name of another type. -/
theorem overload_passed_over :
    (∃ w' d, Handler.run .exhausted .methodBySignature
        (overloadWorld [.text "Run", .nil]) = .ok 1 w' ∧
      (overloadWorld [.text "Run", .nil]).ReturnsCall 1 w' d ∧
      d.candidates = [overload "Run" []] ∧ (overload "Run" []).params.length = 0 ∧
      ((overloadWorld [.text "Run", .nil]).machine.valuesFrom 3).length = 1) ∧
    ∃ w' d, Handler.run .exhausted .methodBySignature
        (overloadWorld [.text "Odd", .text "i32"]) = .ok 1 w' ∧
      (overloadWorld [.text "Odd", .text "i32"]).ReturnsCall 1 w' d ∧
      d.candidates = [overload "Odd" [.named "i32"]] ∧
      (overload "Odd" [.named "i32"]).params.map (·.type) ≠ [HostType.parse "i32"] := by
  have hnothing : (overloadWorld [.text "Run", .nil]).Selects .methodBySignature []
      (overload "Run" []) _ :=
    .method (overloadWorld_class _ _) (overloadWorld_name _ _)
      (Catalog.methodBySignature?_eq_some_iff.mp rfl)
  have hodd : (overloadWorld [.text "Odd", .text "i32"]).Selects .methodBySignature [.int .i32]
      (overload "Odd" [.named "i32"]) _ :=
    .method (overloadWorld_class _ _) (overloadWorld_name _ _)
      (Catalog.methodBySignature?_eq_some_iff.mp rfl)
  exact ⟨⟨_, _, hnothing.returns .exhausted rfl, World.returnsCall_withCall _ _, rfl, rfl, rfl⟩,
    _, _, hodd.returns .exhausted rfl, World.returnsCall_withCall _ _, rfl, by decide +kernel⟩

end ScriptBridge
