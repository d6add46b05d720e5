import ScriptBridge.Proofs.Bridge.Opening
import ScriptBridge.Proofs.Dispatch.Reentrance

/-!
# Rejected assignments

An assignment to a proxy is accepted or rejected before anything is written and before a setter or
an indexer setter of the host is called: member, position, key and value are looked up, checked and
converted first.

1. `Assignment`: what an assignment comes to once it is accepted. `objectAssign_eq` and
   `typeAssign_eq` take the handlers apart into an acceptance and what is done then.
2. `Regime.storeless`: what acceptance keeps, the contents of objects and of static cells.
3. `Engine.performing`: a machine in which something else is done with accepted assignments. What
   it does with an assignment tells apart what is rejected (`Rejects`) and what is accepted
   (`Accepts`).
4. `assign_rejected`: an assignment of a script that raises was rejected, or the host's own setter
   threw.
-/

namespace ScriptBridge

/-! ## Accepted assignments -/

/-- What an assignment to a proxy comes to. -/
inductive Assignment where
  /-- A field or property is set. -/
  | member (target : Option ObjectRef) (set : Setter) (v : HostValue)
  /-- An element of an array is replaced. -/
  | element (ref : ObjectRef) (type : HostType) (items : Array HostValue) (i : Nat) (v : HostValue)
  /-- An item is set by an indexer. -/
  | item (ref : ObjectRef) (key v : HostValue)

def Assignment.run : Assignment → Host Unit
  | member target set v => set.run target v
  | element ref type items i v => do
    setObjectData ref (.array type (items.setIfInBounds i v))
    discard (items.getD i .null).refs
  | item ref key v => indexerSet ref key v

/-- A member that can be set, with the third slot as its type. -/
def acceptMember (target : Option ObjectRef) (cls : Class) (name : String) (found : FoundMember) :
    Host Assignment := do
  let place := "'" ++ cls.name ++ "." ++ name ++ "'"
  match found with
  | .field f | .property f =>
    match f.set with
    | none => throwCause (.invalidAssignment (place ++ " is read-only"))
    | some set => return .member target set (← convertSlot 3 f.type)
  | _ => throwCause (.invalidAssignment (place ++ " is not a field or property"))

/-- A member of an object that a text in the second slot names. -/
def acceptNamed (ref : ObjectRef) (cls : Class) : Host (Option Assignment) := do
  match ← valueAt 2 with
  | .text name =>
    match (← member? cls .onObject name).filter (!·.isStatic) with
    | some found => return some (← acceptMember (some ref) cls name found)
    | none =>
      if (← member? cls .static name).isSome then
        throwCause (.staticFromInstance cls.name name)
      else return none
  | _ => return none

/-- An element, if the object is an array and the key a number. -/
def acceptElement (ref : ObjectRef) (o : HostObject) : Host (Option Assignment) := do
  match o.data, ← valueAt 2 with
  | .array type items, .number _ =>
    let i ← arrayPosition items.size
    return some (.element ref type items i (← convertSlot 3 type))
  | _, _ => return none

/-- An indexed item, if a class of the object has an indexer. -/
def acceptIndexed (ref : ObjectRef) (o : HostObject) : Host (Option Assignment) := do
  match ← indexerClass? o.cls with
  | none => return none
  | some owner =>
    match owner.indexer with
    | none => return none
    | some indexer =>
      if !indexer.set then
        throwCause (.invalidAssignment ("indexer of '" ++ owner.name ++ "' is read-only"))
      let key ← convertSlot 2 indexer.key
      match ← attempt (convertSlot 3 indexer.value) with
      | .ok v => return some (.item ref key v)
      | .error e =>
        discard key.refs
        throw e

/-- What is accepted in one way, or else in another. -/
def acceptFirst (x : Host (Option Assignment)) (y : Host Assignment) : Host Assignment := do
  match ← x with
  | some a => return a
  | none => y

/-- What is accepted for an instance proxy. -/
def acceptOnObject : Host Assignment := do
  let (ref, o) ← selfObject
  acceptFirst (acceptNamed ref o.cls) (acceptFirst (acceptElement ref o)
    (acceptFirst (acceptIndexed ref o) do memberNotFound o.cls (← keyName 2)))

/-- What is accepted for a type proxy. -/
def acceptStatic : Host Assignment := do
  let cls ← selfType
  let name ← keyName 2
  match ← member? cls .static name with
  | some found => acceptMember none cls name found
  | none => memberNotFound cls name

/-! ## The handlers taken apart -/

/-- Does what was accepted, if anything was. -/
def performAny (a : Option Assignment) : Host Bool := do
  match a with
  | some a =>
    a.run
    return true
  | none => return false

theorem assignMember_eq (target : Option ObjectRef) (cls : Class) (name : String)
    (found : FoundMember) :
    assignMember target cls name found = acceptMember target cls name found >>= Assignment.run := by
  have hfield (f : Field) (cause : Cause) :
      (match f.set with
        | none => throwCause cause
        | some set => do
          let v ← convertSlot 3 f.type
          set.run target v) =
      (match f.set with
        | none => throwCause cause
        | some set => do return .member target set (← convertSlot 3 f.type)) >>=
          Assignment.run := by
    cases f.set with
    | none => rfl
    | some set =>
      dsimp only
      rw [bind_assoc]
      simp only [pure_bind]
      rfl
  cases found with
  | field f => exact hfield f _
  | property f => exact hfield f _
  | _ => rfl

theorem assignNamed_eq (ref : ObjectRef) (cls : Class) :
    assignNamed ref cls = acceptNamed ref cls >>= performAny := by
  unfold assignNamed acceptNamed
  rw [bind_assoc]
  refine bind_congr fun v => ?_
  cases v with
  | text name =>
    dsimp only
    rw [bind_assoc]
    refine bind_congr fun found => ?_
    generalize found.filter _ = own
    cases own with
    | some own =>
      simp only [assignMember_eq, bind_assoc, pure_bind]
      rfl
    | none =>
      simp only [bind_assoc]
      refine bind_congr fun found => ?_
      split <;> rfl
  | _ => rfl

theorem assignElement_eq (ref : ObjectRef) (o : HostObject) :
    assignElement ref o = acceptElement ref o >>= performAny := by
  unfold assignElement acceptElement
  rw [bind_assoc]
  refine bind_congr fun v => ?_
  generalize o.data = data
  cases data with
  | array type items =>
    cases v with
    | number n =>
      simp only [bind_assoc, pure_bind]
      rfl
    | _ => rfl
  | _ => rfl

theorem assignIndexed_eq (ref : ObjectRef) (o : HostObject) :
    assignIndexed ref o = acceptIndexed ref o >>= performAny := by
  unfold assignIndexed acceptIndexed
  rw [bind_assoc]
  refine bind_congr fun owner => ?_
  cases owner with
  | none => rfl
  | some owner =>
    dsimp only
    cases owner.indexer with
    | none => rfl
    | some indexer =>
      dsimp only
      split
      · rfl
      · simp only [bind_assoc]
        refine bind_congr fun key => bind_congr fun v => ?_
        cases v <;> rfl

theorem performAny_acceptFirst {x : Host (Option Assignment)} {y : Host Assignment}
    {z : Host Nat} (hz : z = (do
      (← y).run
      return 0)) :
    (do if ← x >>= performAny then return 0 else z) = (do
      (← acceptFirst x y).run
      return 0) := by
  subst hz
  unfold acceptFirst
  simp only [bind_assoc]
  refine bind_congr fun a => ?_
  cases a with
  | some a =>
    simp only [performAny, bind_assoc, pure_bind]
    rfl
  | none =>
    simp only [performAny, pure_bind]
    rfl

theorem objectAssign_eq :
    objectAssign = (do
      (← acceptOnObject).run
      return 0) := by
  unfold objectAssign acceptOnObject
  rw [bind_assoc]
  refine bind_congr fun (ref, o) => ?_
  dsimp only
  rw [assignNamed_eq, assignElement_eq, assignIndexed_eq]
  refine performAny_acceptFirst (performAny_acceptFirst (performAny_acceptFirst ?_))
  rw [bind_assoc]
  rfl

theorem typeAssign_eq :
    typeAssign = (do
      (← acceptStatic).run
      return 0) := by
  unfold typeAssign acceptStatic
  simp only [bind_assoc]
  refine bind_congr fun cls => bind_congr fun name => bind_congr fun found => ?_
  cases found with
  | some found =>
    dsimp only
    rw [assignMember_eq, bind_assoc]
  | none => rfl

/-! ## What acceptance keeps -/

section

variable {R : Regime}

theorem orderly_acceptMember (target : Option ObjectRef) (cls : Class) (name : String)
    (found : FoundMember) : Orderly R (acceptMember target cls name found) := by
  have hfield (f : Field) (cause : Cause) : Orderly R (match f.set with
      | none => throwCause cause
      | some set => do return .member target set (← convertSlot 3 f.type) : Host Assignment) := by
    cases f.set with
    | none => exact orderly_throwCause _
    | some set => exact .bind (orderly_convertSlot _ _) fun _ => .pure _
  cases found with
  | field f => exact hfield f _
  | property f => exact hfield f _
  | _ => exact orderly_throwCause _

theorem orderly_acceptNamed [R.Learns] (ref : ObjectRef) (cls : Class) :
    Orderly R (acceptNamed ref cls) := by
  refine .bind (.lift (orderly_valueAt 2)) fun v => ?_
  cases v with
  | text name =>
    refine .bind (.lift (orderly_member? _ _ _)) fun found => ?_
    split
    · exact .bind (orderly_acceptMember _ _ _ _) fun _ => .pure _
    · refine .bind (.lift (orderly_member? _ _ _)) fun found => ?_
      split
      · exact orderly_throwCause _
      · exact .pure _
  | _ => exact .pure _

theorem orderly_acceptElement (ref : ObjectRef) (o : HostObject) :
    Orderly R (acceptElement ref o) := by
  refine .bind (.lift (orderly_valueAt 2)) fun v => ?_
  split
  · exact .bind (orderly_arrayPosition _) fun _ =>
      .bind (orderly_convertSlot _ _) fun _ => .pure _
  · exact .pure _

theorem orderly_acceptIndexed (ref : ObjectRef) (o : HostObject) :
    Orderly R (acceptIndexed ref o) := by
  refine .bind (.lift (orderly_indexerClass? _)) fun owner => ?_
  cases owner with
  | none => exact .pure _
  | some owner =>
    dsimp only
    cases owner.indexer with
    | none => exact .pure _
    | some indexer =>
      refine .guard (orderly_throwCause _) ?_
      refine .bind (orderly_convertSlot _ _) fun key =>
        .bind (.lift (orderly_convertSlot _ _).attempt) fun v => ?_
      cases v with
      | ok v => exact .pure _
      | error e => exact .bind (.lift (orderly_discard _)) fun _ => .throw _

theorem orderly_acceptFirst {x : Host (Option Assignment)} {y : Host Assignment}
    (hx : Orderly R x) (hy : Orderly R y) : Orderly R (acceptFirst x y) := by
  refine .bind hx fun a => ?_
  cases a with
  | some a => exact .pure _
  | none => exact hy

theorem orderly_acceptOnObject [R.Learns] : Orderly R acceptOnObject :=
  .bind orderly_selfObject fun ⟨ref, o⟩ =>
    orderly_acceptFirst (orderly_acceptNamed ref o.cls)
      (orderly_acceptFirst (orderly_acceptElement ref o)
        (orderly_acceptFirst (orderly_acceptIndexed ref o)
          (.bind (.lift (orderly_keyName 2)) fun _ => orderly_throwCause _)))

theorem orderly_acceptStatic [R.Learns] : Orderly R acceptStatic := by
  refine .bind orderly_selfType fun cls => .bind (.lift (orderly_keyName 2)) fun name =>
    .bind (.lift (orderly_member? _ _ _)) fun found => ?_
  cases found with
  | some found => exact orderly_acceptMember _ _ _ _
  | none => exact orderly_throwCause _

end

/-- To leave the contents of objects and static cells alone. -/
def Regime.storeless : Regime where
  Has Q := ∃ w : World, Q = w.SameContents
  step := by
    rintro _ w w' ⟨w₀, rfl⟩ hw - hsame
    exact hw.trans hsame.toSameContents
  pushed := by
    rintro _ _ _ ⟨w₀, rfl⟩ hw
    exact ⟨_, ⟨w₀, rfl⟩, hw.trans (.of_same rfl rfl), fun _ h => h.trans (.of_same rfl rfl)⟩

/-- A change outside of them. -/
theorem storeless_modifyGet {m : Type → Type} [Monad m] [MonadStateOf World m] [Program m]
    {α : Type} {f : World → α × World} (h : ∀ w : World, w.SameContents (f w).2) :
    Orderly .storeless (modifyGet f : m α) := by
  rintro _ ⟨w₀, rfl⟩
  exact keeps_modifyGet fun w hw => hw.trans (h w)

instance : Regime.storeless.Learns where
  learn := by
    rintro _ w key found ⟨w₀, rfl⟩ hw -
    exact hw.trans (.of_same rfl rfl)

instance : Regime.storeless.Pushes where
  push _ := storeless_modifyGet fun _ => .of_same rfl rfl

theorem Alike.sameContents {ε α : Type} {x : EStateM ε World α} (h : Orderly .storeless x)
    (w : World) : w.SameContents (worldAfter (x w)) :=
  (h _ ⟨w, rfl⟩ w (.refl w)).2

/-! ## Assignments of scripts -/

/-- What accepts assignments in a handler. -/
def Handler.accept? : Handler → Option (Host Assignment)
  | objectAssign => some acceptOnObject
  | typeAssign => some acceptStatic
  | _ => none

/-- What accepts assignments in a function that handles them. -/
def Function.accept? (f : Function) : Option (Host Assignment) :=
  match f.code with
  | .handler h => h.accept?
  | _ => none

def World.accept? (w : World) (f : FunctionRef) : Option (Host Assignment) :=
  (w.functions.get? f.index).bind Function.accept?

/-- A handler that does accepted assignments in some way. -/
def assignThrough (accept : Host Assignment) (perform : Assignment → Host Unit) : Script Nat :=
  inSession do
    perform (← accept)
    return 0

/-- The engine, but with functions that do accepted assignments in some way. -/
def Engine.performing (E : Engine) (perform : Assignment → Host Unit) : Engine where
  run f w :=
    match w.accept? f with
    | some accept => assignThrough accept perform w
    | none => E.run f w
  block := E.block
  invoke := E.invoke
  statements := E.statements
  eval := E.eval

/-- A script fails, with the contents of objects and static cells as they were, in whatever way
accepted assignments are done. -/
structure Rejects {α : Type} (x : (Assignment → Host Unit) → Script α) (w : World) (e : Raise)
    (w' : World) : Prop where
  same : w.SameContents w'
  error : ∀ perform, x perform w = .error e w'

/-- A script accepts an assignment, with the contents of objects and static cells as they were, and
fails exactly if what is done with it fails. -/
structure Accepts {α : Type} (x : (Assignment → Host Unit) → Script α) (w : World)
    (a : Assignment) (w' : World) : Prop where
  same : w.SameContents w'
  ok : ∀ perform w₁, perform a w' = .ok () w₁ → ∃ b w₂, x perform w = .ok b w₂
  error : ∀ perform e w₁, perform a w' = .error e w₁ → ∃ r w₂ w₃,
    (raiseFailure e : Script Nat) w₁ = .error r w₂ ∧ x perform w = .error r w₃

/-- What was accepted fails because the host's own setter or indexer setter throws. -/
inductive Assignment.Throws : Assignment → World → Failure → World → Prop
  | member {target : Option ObjectRef} {set : Setter} {v : HostValue} {e : Failure} {w w' : World}
    (h : set.run target v w = .error e w') : Throws (.member target set v) w e w'
  | item {ref : ObjectRef} {key v : HostValue} {e : Failure} {w w' : World}
    (h : indexerSet ref key v w = .error e w') : Throws (.item ref key v) w e w'

/-- An element of an array is replaced in any case. -/
theorem Assignment.throws_of_run {a : Assignment} {w w' : World} {e : Failure}
    (h : a.run w = .error e w') : a.Throws w e w' := by
  cases a with
  | member target set v => exact .member h
  | item ref key v => exact .item h
  | element ref type items i v => cases h

section

variable {h : Handler} {accept : Host Assignment} {w w' : World}

theorem Handler.orderly_accept {R : Regime} [R.Learns] (haccept : h.accept? = some accept) :
    Orderly R accept := by
  cases h with
  | objectAssign =>
    cases haccept
    exact orderly_acceptOnObject
  | typeAssign =>
    cases haccept
    exact orderly_acceptStatic
  | _ => cases haccept

theorem Handler.run_eq (haccept : h.accept? = some accept) (E : Engine) :
    h.run E = assignThrough accept Assignment.run := by
  cases h with
  | objectAssign =>
    cases haccept
    exact congrArg inSession objectAssign_eq
  | typeAssign =>
    cases haccept
    exact congrArg inSession typeAssign_eq
  | _ => cases haccept

theorem World.orderly_accept {R : Regime} [R.Learns] {f : FunctionRef}
    (haccept : w.accept? f = some accept) : Orderly R accept := by
  obtain ⟨⟨label, code⟩, -, hcode⟩ := Option.bind_eq_some_iff.mp haccept
  cases code with
  | handler h => exact Handler.orderly_accept hcode
  | _ => cases hcode

/-- The functions of a world that handle assignments do accepted ones by `Assignment.run`. -/
theorem runFunction_performing (E : Engine) (f : FunctionRef) (w : World)
    (haccept : w.accept? f = some accept) :
    runFunction E f w = assignThrough accept Assignment.run w := by
  obtain ⟨⟨label, code⟩, hf, hcode⟩ := Option.bind_eq_some_iff.mp haccept
  unfold runFunction
  rw [get_bind, hf]
  cases code with
  | handler h => exact congrFun (Handler.run_eq hcode E) w
  | _ => cases hcode

theorem Engine.ofDepth_performing (d : Nat) :
    (ofDepth (d + 1)).performing Assignment.run = ofDepth (d + 1) := by
  have hrun : ((ofDepth (d + 1)).performing Assignment.run).run = (ofDepth (d + 1)).run := by
    funext f w
    unfold performing
    dsimp only
    cases haccept : w.accept? f with
    | none => rfl
    | some accept => exact (runFunction_performing (ofDepth d) f w haccept).symm
  exact congrArg (fun run : FunctionRef → Script Nat => { ofDepth (d + 1) with run }) hrun

theorem Engine.performing_run (E : Engine) (perform : Assignment → Host Unit) {f : FunctionRef}
    (haccept : w.accept? f = some accept) :
    (E.performing perform).run f w = assignThrough accept perform w := by
  unfold performing
  dsimp only
  rw [haccept]

/-- What is thrown is raised. -/
theorem exists_raiseFailure {α : Type} (e : Failure) (w : World) :
    ∃ r w', (raiseFailure e : Script α) w = .error r w' := by
  cases hr : (raiseFailure e : Script α) w with
  | ok a w' => exact absurd hr (raiseFailure_ne_ok e w)
  | error r w' => exact ⟨r, w', rfl⟩

theorem asScript_of_error {α : Type} {x : Host α} {e : Failure} (hx : x w = .error e w') :
    asScript x w = raiseFailure e w' :=
  bind_of_ok (lift_of_eq (attempt_of_error hx))

/-- A handler rejects an assignment or accepts it. -/
theorem assignThrough_cases (haccept : Orderly .storeless accept) (w : World) :
    (∃ e w', Rejects (assignThrough accept) w e w') ∨
      ∃ a w', Accepts (assignThrough accept) w a w' := by
  cases hsession : w.session?.isNone with
  | true =>
    obtain ⟨e, w', hraise⟩ := raiseCause_error (α := PUnit) noSession w
    have hsame := (orderly_raiseCause (α := PUnit) noSession).sameContents w
    rw [hraise] at hsame
    refine .inl ⟨e, w', hsame, fun perform => ?_⟩
    unfold assignThrough inSession
    rw [get_bind, hsession]
    exact bind_of_error hraise
  | false =>
    have hinside (perform : Assignment → Host Unit) : assignThrough accept perform w =
        asScript (accept >>= fun a => perform a >>= fun _ => pure 0) w := by
      unfold assignThrough inSession
      rw [get_bind, hsession]
      rfl
    have hsame := haccept.sameContents w
    cases ha : accept w with
    | ok a w' =>
      rw [ha] at hsame
      refine .inr ⟨a, w', hsame, fun perform w₁ hdone => ⟨0, w₁, ?_⟩, fun perform e w₁ hfail => ?_⟩
      · have hall : (perform a >>= fun _ => pure 0 : Host Nat) w' = .ok 0 w₁ := bind_of_ok hdone
        rw [hinside]
        exact bind_of_ok (lift_of_eq (attempt_of_ok ((bind_of_ok ha).trans hall)))
      · obtain ⟨r, w₂, hraise⟩ := exists_raiseFailure (α := Nat) e w₁
        refine ⟨r, w₂, w₂, hraise, ?_⟩
        rw [hinside, asScript_of_error ((bind_of_ok ha).trans (bind_of_error hfail)), hraise]
    | error e w' =>
      rw [ha] at hsame
      obtain ⟨r, w'', hraise⟩ := exists_raiseFailure (α := Nat) e w'
      have hafter := (orderly_raiseFailure (α := Nat) e).sameContents w'
      rw [hraise] at hafter
      refine .inl ⟨r, w'', hsame.trans hafter, fun perform => ?_⟩
      rw [hinside, asScript_of_error (bind_of_error ha), hraise]

/-! ## Through the call -/

section

variable {α β : Type} {x : (Assignment → Host Unit) → Script α}
  {y : (Assignment → Host Unit) → Script β} {w₀ w₁ w₂ : World} {a : Assignment} {r : Raise}

theorem Rejects.through (h : Rejects x w r w₁) (hbefore : w₀.SameContents w)
    (hafter : w₁.SameContents w₂)
    (herror : ∀ perform, x perform w = .error r w₁ → y perform w₀ = .error r w₂) :
    Rejects y w₀ r w₂ where
  same := (hbefore.trans h.same).trans hafter
  error perform := herror perform (h.error perform)

theorem Accepts.through (h : Accepts x w a w') (hbefore : w₀.SameContents w)
    (hok : ∀ perform b w₁, x perform w = .ok b w₁ → ∃ c w₂, y perform w₀ = .ok c w₂)
    (herror : ∀ perform e w₁, x perform w = .error e w₁ → ∃ w₂, y perform w₀ = .error e w₂) :
    Accepts y w₀ a w' where
  same := hbefore.trans h.same
  ok perform w₁ hdone := by
    obtain ⟨b, w₂, hx⟩ := h.ok perform w₁ hdone
    exact hok perform b w₂ hx
  error perform e w₁ hfail := by
    obtain ⟨r, w₂, w₃, hraise, hx⟩ := h.error perform e w₁ hfail
    obtain ⟨w₄, hy⟩ := herror perform r w₃ hx
    exact ⟨r, w₂, w₄, hraise, hy⟩

end

end

theorem storeless_cut (pos : Nat) (outliving : List Ref) :
    Orderly .storeless (cut pos outliving) :=
  .bind (storeless_modifyGet fun _ => .of_same rfl rfl) fun _ => orderly_discard _

theorem storeless_leaveCall_error (pos : Nat) (f : FunctionRef) (wanted : Int) (e : Raise) :
    Orderly .storeless (leaveCall pos f wanted (.error e)) :=
  .bind (.lift (storeless_modifyGet fun _ => .of_same rfl rfl)) fun _ =>
    .bind (.lift (storeless_cut _ _)) fun _ =>
      .bind (.lift (orderly_settleBeside _)) fun _ => .throw e

theorem storeless_overflow (pos : Nat) (f : FunctionRef) : Orderly .storeless (overflow pos f) :=
  .bind (.lift (storeless_cut _ _)) fun _ => .bind (.lift orderly_settle) fun _ => .throw _

section

variable {w : World} {f : FunctionRef} {accept : Host Assignment}

/-- A call whose function, on the stack below its arguments, handles assignments. -/
theorem call_cases_performing (E : Engine) {nargs : Nat} (wanted : Int)
    (haccept : w.accept? f = some accept)
    (hf : w.machine.stack.getD (w.machine.stack.size - (nargs + 1)) .nil = .function f) :
    (∃ e w', Rejects (fun perform => call (E.performing perform) nargs wanted) w e w') ∨
      ∃ a w', Accepts (fun perform => call (E.performing perform) nargs wanted) w a w' := by
  cases hslot : w.machine.calleeSlot? (nargs : Int).toNat with
  | none =>
    exact .inl ⟨_, w, .refl w, fun _ => (call_of_noSlot _ wanted hslot).trans rfl⟩
  | some pos =>
    obtain rfl : w.machine.stack.size - (nargs + 1) = pos := by
      unfold Machine.calleeSlot? at hslot
      split at hslot
      · exact Option.some.inj hslot
      · cases hslot
    let pos := w.machine.stack.size - (nargs + 1)
    have hcallee : Callee w pos f w.machine.stack := .function hf
    cases hdeep : w.machine.isTooDeep with
    | true =>
      obtain ⟨w', hover, -⟩ := overflow_eq w pos f
      have hsame := (storeless_overflow pos f).sameContents w
      rw [hover] at hsame
      exact .inl ⟨_, w', hsame, fun _ =>
        (call_of_tooDeep _ wanted hslot hcallee.calleeAt hdeep).trans hover⟩
    | false =>
      -- The body is the handler, and leaving the call passes its outcome on.
      let w₁ := w.entered pos f w.machine.stack
      have hentered : w.SameContents w₁ := .of_same rfl rfl
      have hcall (perform : Assignment → Host Unit) :
          call (E.performing perform) nargs wanted w =
            leaveCall pos f wanted (attempt (assignThrough accept perform) w₁).1
              (attempt (assignThrough accept perform) w₁).2 := by
        have hrun : (E.performing perform).run f w₁ = assignThrough accept perform w₁ :=
          E.performing_run perform (w := w₁) haccept
        rw [call_of_callee _ wanted hslot hcallee.calleeAt hdeep, lift_bind, attempt_congr hrun]
      obtain ⟨e, w₂, hreject⟩ | ⟨a, w₂, ha⟩ :=
        assignThrough_cases (World.orderly_accept haccept) w₁
      · obtain ⟨w', hleave, -⟩ := leaveCall_error w₂ pos f wanted e
        have hleft := (storeless_leaveCall_error pos f wanted e).sameContents w₂
        rw [hleave] at hleft
        refine .inl ⟨e, w', hreject.through hentered hleft fun perform herror => ?_⟩
        rw [hcall, attempt_of_error herror]
        exact hleave
      · refine .inr ⟨a, w₂, ha.through hentered (fun perform n w₃ hok => ?_)
          fun perform e w₃ herror => ?_⟩
        · obtain ⟨w', hleave, -⟩ := leaveCall_ok w₃ pos f wanted n
          refine ⟨(), w', ?_⟩
          rw [hcall, attempt_of_ok hok]
          exact hleave
        · obtain ⟨w', hleave, -⟩ := leaveCall_error w₃ pos f wanted e
          refine ⟨w', ?_⟩
          rw [hcall, attempt_of_error herror]
          exact hleave

end

/-- The function, the proxy, the key and the value are on the stack. -/
def World.assigning (w : World) (f : FunctionRef) (self key value : Value) : World :=
  (push value (push key (push self (push (.function f) w).2).2).2).2

theorem World.assigning_callee (w : World) (f : FunctionRef) (self key value : Value) :
    (w.assigning f self key value).machine.stack.getD
      ((w.assigning f self key value).machine.stack.size - (3 + 1)) .nil = .function f := by
  let stack := (((w.machine.stack.push (.function f)).push self).push key).push value
  show stack.getD (stack.size - (3 + 1)) .nil = .function f
  simp only [stack, Array.getD_eq_getD_getElem?, Array.getElem?_push, Array.size_push]
  rw [if_neg (by omega), if_neg (by omega), if_neg (by omega), if_pos (by omega)]
  rfl

theorem assign_of_handler {w : World} {object key value self : Value} {f : FunctionRef}
    (htarget : w.findTarget key World.chainLimit object = .handler (.function f) self)
    (E : Engine) :
    assign E object key value w = call E (3 : Nat) 0 (w.assigning f self key value) := by
  unfold assign
  rw [get_bind, htarget]
  rfl

/-- What an assignment does that ends at no handler. -/
theorem assign_of_noHandler {w : World} {object key : Value}
    (htarget : ∀ f self, w.findTarget key World.chainLimit object ≠ .handler f self)
    (value : Value) : ∃ x : Script Unit, Orderly .storeless x ∧
      ∀ E, assign E object key value w = x w := by
  unfold assign
  cases htarget' : w.findTarget key World.chainLimit object with
  | handler f self => exact absurd htarget' (htarget f self)
  | table t =>
    refine ⟨rawSet t key value, orderly_rawSet t key value, fun E => ?_⟩
    rw [get_bind, htarget']
  | notIndexable v =>
    refine ⟨_, .bind (.lift (orderly_discard (value.refs ++ key.refs))) fun _ =>
      orderly_raiseAt 0 ("attempt to index a " ++ v.typeName ++ " value"), fun E => ?_⟩
    rw [get_bind, htarget']
  | tooLong =>
    refine ⟨_, .bind (.lift (orderly_discard (value.refs ++ key.refs))) fun _ =>
      orderly_raiseAt 0 "'__newindex' chain too long; possible loop", fun E => ?_⟩
    rw [get_bind, htarget']

/-- An assignment of a script ends at a proxy, whose handler is called, or it ends at a table or
fails before. -/
def World.AssignsToProxy (w : World) (object key : Value) : Prop :=
  ∀ callee self, w.findTarget key World.chainLimit object = .handler callee self →
    ∃ f, callee = .function f ∧ (w.accept? f).isSome

/-- The same as a check. -/
def World.assignsToProxy (w : World) (object key : Value) : Bool :=
  match w.findTarget key World.chainLimit object with
  | .handler (.function f) _ => (w.accept? f).isSome
  | .handler _ _ => false
  | _ => true

theorem World.assignsToProxy_iff {w : World} {object key : Value} :
    w.assignsToProxy object key = true ↔ w.AssignsToProxy object key := by
  unfold assignsToProxy AssignsToProxy
  cases w.findTarget key World.chainLimit object with
  | handler callee self =>
    constructor
    · intro h callee' self' he
      cases he
      cases callee with
      | function f => exact ⟨f, rfl, h⟩
      | _ => cases h
    · intro h
      obtain ⟨f, rfl, hf⟩ := h callee self rfl
      exact hf
  | _ => exact ⟨fun _ => nofun, fun _ => rfl⟩

instance {w : World} {object key : Value} : Decidable (w.AssignsToProxy object key) :=
  decidable_of_iff _ World.assignsToProxy_iff

/-- If an assignment to a proxy raises, it was rejected: objects and static cells hold what they
held, and nothing was done that is done with accepted assignments, since whatever that were, the
error would be the same. Or it was accepted, and the host's own setter or indexer setter threw. -/
theorem assign_rejected (d : Nat) {w : World} {object key value : Value}
    (hproxy : w.AssignsToProxy object key) {e : Raise} {w' : World}
    (herror : assign (.ofDepth (d + 1)) object key value w = .error e w') :
    (Engine.ofDepth (d + 1)).performing Assignment.run = .ofDepth (d + 1) ∧
    let assigning perform := assign ((Engine.ofDepth (d + 1)).performing perform) object key value
    (Rejects assigning w e w' ∨
      ∃ a w₁ failure w₂ w₃, Accepts assigning w a w₁ ∧ a.Throws w₁ failure w₂ ∧
        (raiseFailure failure : Script Nat) w₂ = .error e w₃) := by
  have hperforming := Engine.ofDepth_performing d
  refine ⟨hperforming, ?_⟩
  dsimp only
  by_cases htarget : ∃ callee self,
      w.findTarget key World.chainLimit object = .handler callee self
  · obtain ⟨callee, self, htarget⟩ := htarget
    obtain ⟨f, rfl, hsome⟩ := hproxy callee self htarget
    obtain ⟨accept, haccept⟩ := Option.isSome_iff_exists.mp hsome
    have hpushed : w.SameContents (w.assigning f self key value) := .of_same rfl rfl
    obtain ⟨e', w₁, hreject⟩ | ⟨a, w₁, ha⟩ :=
      call_cases_performing (.ofDepth (d + 1)) (w := w.assigning f self key value) 0 haccept
        (w.assigning_callee f self key value)
    -- The assignment that raised is the one that does what was accepted.
    · have hassign := hreject.through hpushed (.refl w₁)
        fun perform h => (assign_of_handler htarget _).trans h
      have hrejected := hassign.error Assignment.run
      rw [hperforming, herror] at hrejected
      cases hrejected
      exact .inl hassign
    · have hassign := ha.through hpushed
        (fun perform b w₂ h => ⟨b, w₂, (assign_of_handler htarget _).trans h⟩)
        fun perform r w₂ h => ⟨w₂, (assign_of_handler htarget _).trans h⟩
      cases hrun : a.run w₁ with
      | ok _ w₂ =>
        obtain ⟨_, w₃, hok⟩ := hassign.ok _ w₂ hrun
        rw [hperforming, herror] at hok
        cases hok
      | error failure w₂ =>
        obtain ⟨r, w₃, w₄, hraise, hfailed⟩ := hassign.error _ failure w₂ hrun
        rw [hperforming, herror] at hfailed
        cases hfailed
        exact .inr ⟨a, w₁, failure, w₂, w₃, hassign, Assignment.throws_of_run hrun, hraise⟩
  · -- Without a handler nothing is accepted, and a table that is written to is none of the host's.
    obtain ⟨x, hx, hassign⟩ := assign_of_noHandler
      (fun f self h => htarget ⟨f, self, h⟩) value
    have hsame := hx.sameContents w
    rw [← hassign (.ofDepth (d + 1)), herror] at hsame
    exact .inl ⟨hsame, fun perform => by rw [hassign, ← hassign (.ofDepth (d + 1)), herror]⟩

/-! ### A position beyond the end -/

/-- A session in which an array of one number was pushed. -/
def World.listing : World :=
  (pushObject ⟨0⟩ (newObject (ScriptBridge.arrayClass (HostType.int .i32))
    (.array (HostType.int .i32) #[.int .i32 7]) (World.opened {} {} .build)).2).2

/-- An assignment to a second element. -/
def assignBeyond (E : Engine) : Script Unit :=
  assign E (.userdata ⟨0⟩) (.number (Number.ofInt 1)) (.number (Number.ofInt 8))

/-- There is no such element, so the assignment is rejected. -/
theorem assign_rejected_beyond :
    World.listing.AssignsToProxy (.userdata ⟨0⟩) (.number (Number.ofInt 1)) ∧
    ∃ e w', assignBeyond (.ofDepth 1) .listing = .error e w' ∧
      Rejects (fun perform => assignBeyond ((Engine.ofDepth 1).performing perform)) .listing e
        w' := by
  have hproxy : World.listing.AssignsToProxy (.userdata ⟨0⟩) (.number (Number.ofInt 1)) := by
    decide +kernel
  have hfails (E : Engine) (h : (attempt (assignBeyond E) .listing).1.toOption = none) :
      ∃ e w', assignBeyond E .listing = .error e w' := by
    cases hassign : assignBeyond E .listing with
    | ok _ w' =>
      rw [attempt_of_ok hassign] at h
      cases h
    | error e w' => exact ⟨e, w', rfl⟩
  obtain ⟨e, w', herror⟩ := hfails (.ofDepth 1) (by decide +kernel)
  refine ⟨hproxy, e, w', herror, ?_⟩
  obtain ⟨-, hreject | ⟨a, w₁, -, -, -, haccept, -⟩⟩ := assign_rejected 0 hproxy herror
  · exact hreject
  · -- What was accepted could be done by doing nothing.
    obtain ⟨_, w₂, hok⟩ := haccept.ok (fun _ => pure ()) w₁ rfl
    obtain ⟨e', w₃, hagain⟩ := hfails ((Engine.ofDepth 1).performing fun _ => pure ())
      (by decide +kernel)
    cases hok.symm.trans hagain

end ScriptBridge
