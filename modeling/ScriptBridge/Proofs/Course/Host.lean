import ScriptBridge.Bridge.Describe
import ScriptBridge.Bridge.Signature
import ScriptBridge.Proofs.Course.Conversion
import ScriptBridge.Script.Declaration

/-!
# Host code step by step

Looking up members, reading and writing storage, reading the results of a call and building
literals are orderly under every regime.
-/

namespace ScriptBridge

variable {R : Regime} {α β : Type}

/-! ## Members -/

theorem orderly_functionOf (name : String) (d : DispatcherRef) : Orderly R (functionOf name d) :=
  orderly_newFunction _

theorem orderly_foundMember (cls : Class) (name : String) (isStatic : Bool) (g : MemberGroup) :
    Orderly R (foundMember cls name isStatic g) := by
  cases g with
  | methods candidates =>
    exact .bind (orderly_newDispatcher _) fun _ =>
      .bind (orderly_functionOf _ _) fun _ => .pure _
  | _ => exact .pure _

theorem foundMember_machine (cls : Class) (name : String) (isStatic : Bool) (g : MemberGroup)
    (w : World) : (foundMember cls name isStatic g w).2.machine = w.machine := by
  cases g <;> rfl

theorem Session.Grows.newConstructor {s : Session} {name : String}
    (h : s.constructors.get? name = none) (d : DispatcherRef) :
    s.Grows { s with constructors := s.constructors.insert name d } := by
  refine ⟨rfl, rfl, rfl, fun hk => hk, rfl, rfl, rfl, fun name' d' hk => ?_⟩
  show (s.constructors.insert name d).get? name' = some d'
  rw [Dictionary.get?_insert, if_neg, hk]
  rintro rfl
  rw [h] at hk
  cases hk

theorem orderly_member? [R.Learns] (cls : Class) (binding : Binding) (name : String) :
    Orderly R (member? cls binding name) := by
  refine .of_action fun Q w hQ hw => ?_
  have hread : readSession w = (w.machine.session.getD default, w) := rfl
  unfold member?
  rw [bind_of_eq hread]
  cases hmember : (w.machine.session.getD default).members.get? (cls.name, binding, name) with
  | some found => exact hw
  | none =>
    dsimp only
    cases findGroup (w.machine.session.getD default) cls binding name with
    | none => exact hw
    | some group =>
      obtain ⟨isStatic, g⟩ := group
      have hfound : foundMember cls name isStatic g w =
        ((foundMember cls name isStatic g w).1, (foundMember cls name isStatic g w).2) := rfl
      dsimp only
      rw [bind_of_eq hfound]
      refine Regime.Learns.learn _ hQ (orderly_foundMember cls name isStatic g Q hQ w hw).2
        fun s hs => ?_
      rw [foundMember_machine] at hs
      rw [hs] at hmember
      exact hmember

theorem orderly_constructor? (cls : Class) : Orderly R (constructor? cls) := by
  refine .of_action fun Q w hQ hw => ?_
  have hread : readSession w = (w.machine.session.getD default, w) := rfl
  unfold constructor?
  rw [bind_of_eq hread]
  cases hmember : (w.machine.session.getD default).constructors.get? cls.name with
  | some d => exact hw
  | none =>
    dsimp only
    split
    · exact hw
    · let d : Dispatcher :=
        { name := ".ctor", cls, binding := .constructor, candidates := cls.constructors }
      have hw₁ : Q (newDispatcher d w).2 := (orderly_newDispatcher d Q hQ w hw).2
      refine R.step hQ hw₁ (fun _ => .session _ fun s hs => .newConstructor ?_ _)
        (.modifySession fun s _ => .refl s.catalog)
      have hs : w.machine.session = some s := hs
      rw [hs] at hmember
      exact hmember

theorem orderly_indexerClass? (cls : Class) : Orderly R (indexerClass? cls) :=
  .bind orderly_readSession fun _ => .pure _

theorem orderly_bindBySignature (cls : Class) (name : String) (signature : List String)
    (target : Option ObjectRef) : Orderly R (bindBySignature cls name signature target) := by
  refine .bind orderly_readSession fun s => ?_
  cases s.catalog.methodBySignature? cls name signature with
  | none => exact .pure _
  | some m => exact .bind (orderly_newDispatcher _) fun _ => .pure _

/-! ## Results of calls -/

theorem orderly_convertResult (t : HostType) (v : Option Value) :
    Orderly R (convertResult t v) := by
  cases v with
  | none => exact .pure _
  | some v =>
    refine .bind (.lift (orderly_asType t v)) fun converted => ?_
    cases converted with
    | some converted => exact .pure _
    | none => exact orderly_throwCause _

theorem orderly_replaceArgument (arguments : List HostValue) (i : Nat) (v : HostValue) :
    Orderly R (replaceArgument arguments i v) :=
  .bind (orderly_discard _) fun _ => .pure _

theorem orderly_readOutputs (params : List Param) (i : Nat) (results : List Value)
    (arguments : List HostValue) : Orderly R (readOutputs params i results arguments) := by
  induction params generalizing i results arguments with
  | nil => exact .pure _
  | cons p params ih =>
    unfold readOutputs
    split
    · exact ih _ _ _
    · split
      · refine .bind (orderly_convertResult _ _).attempt fun outcome => ?_
        cases outcome with
        | ok v => exact .bind (orderly_replaceArgument _ _ _) fun _ => ih _ _ _
        | error e => exact .pure _
      · exact ih _ _ _

/-- The part of reading results that follows the return value. -/
theorem orderly_readResultsRest (m : Method) (arguments : List HostValue)
    (ret : Except Failure HostValue) (results : List Value) : Orderly R (do
      match ret with
      | .error e => return (.error e, arguments)
      | .ok ret =>
        match ← readOutputs m.params 0 results arguments with
        | (.ok (), arguments) => return (.ok ret, arguments)
        | (.error e, arguments) =>
          discard ret.refs
          return (.error e, arguments) : Action CallOutcome) := by
  cases ret with
  | error e => exact .pure _
  | ok ret =>
    refine .bind (orderly_readOutputs _ _ _ _) fun ⟨result, arguments⟩ => ?_
    cases result with
    | ok _ => exact .pure _
    | error e => exact .bind (orderly_discard _) fun _ => .pure _

theorem orderly_readResults (m : Method) (results : List Value) (arguments : List HostValue) :
    Orderly R (readResults m results arguments) := by
  unfold readResults
  split
  · exact .bind (.pure _) fun ⟨ret, results⟩ => orderly_readResultsRest m arguments ret results
  · exact .bind (orderly_convertResult _ _).attempt fun _ =>
      .bind (.pure _) fun ⟨ret, results⟩ => orderly_readResultsRest m arguments ret results

theorem orderly_failedCall (cause : Cause) (arguments : List HostValue) :
    Orderly R (failedCall cause arguments) :=
  .bind (orderly_newException cause) fun _ => .pure _

/-! ## Storage -/

theorem orderly_throwNamed {α : Type} (name : String) : Orderly R (throwNamed name : Host α) :=
  .bind (.lift (orderly_namedException name)) fun _ => .throw _

theorem orderly_readBag? (target : Option ObjectRef) : Orderly R (readBag? target) := by
  cases target with
  | some o => exact .bind (orderly_readObject? o) fun _ => .pure _
  | none => exact .pure _

theorem orderly_readItems? (target : Option ObjectRef) : Orderly R (readItems? target) := by
  cases target with
  | some o => exact .bind (orderly_readObject? o) fun _ => .pure _
  | none => exact .pure _

theorem orderly_setObjectData [R.Fills] (o : ObjectRef) (data : ObjectData) :
    Orderly R (setObjectData o data) :=
  .fill fun _ _ => .setObject o data

/-- A bag may be replaced by another one. -/
theorem Regime.setBag [R.Stores] {Q : World → Prop} (hQ : R.Has Q) {w : World} (hw : Q w)
    {target : Option ObjectRef} {b : Bag} (hbag : (readBag? target w).1 = some b) (b' : Bag) :
    Q (setBag target b' w).2 := by
  cases target with
  | none => exact hw
  | some o =>
    refine Regime.Stores.store hQ hw (fun _ => .setObject o (.bag b')) ⟨?_, .refl _⟩
    intro i cell cell' items hcell hitems hcell'
    have hbag : (w.objects.get? o.index).bind (·.bag?) = some b := hbag
    by_cases hi : o.index = i
    · rw [hi, hcell] at hbag
      obtain ⟨cls, data⟩ := cell
      cases data with
      | array => cases hbag
      | _ => cases hitems
    · have hsame : (w.objects.modify o.index ({ · with data := .bag b' })).get? i = some cell' :=
        hcell'
      rw [Store.get?_modify_of_ne _ _ hi, hcell] at hsame
      exact (Option.some.inj hsame).symm

/-- What is done with the bag of a target, if it has one. -/
theorem orderly_onBag {target : Option ObjectRef} {f : Option Bag → Host β}
    (hnone : Orderly R (f none))
    (hsome : ∀ Q w b, R.Has Q → Q w → (readBag? target w).1 = some b →
      Q (worldAfter (f (some b) w))) : Orderly R (liftM (readBag? target) >>= f) := by
  intro Q hQ w hw
  have hread : readBag? target w = ((readBag? target w).1, w) := by cases target <;> rfl
  refine ⟨rfl, ?_⟩
  rw [bind_of_ok (lift_of_eq hread)]
  cases hbag : (readBag? target w).1 with
  | none => exact (hnone Q hQ w hw).2
  | some b => exact hsome Q w b hQ hw hbag

/-- A slot of a bag may be written to. -/
theorem Regime.setSlot [R.Stores] {Q : World → Prop} (hQ : R.Has Q) {w : World} (hw : Q w)
    {target : Option ObjectRef} {b : Bag} (hbag : (readBag? target w).1 = some b) (name : String)
    (v : HostValue) : Q (setSlot target b name v w).2 :=
  (orderly_discard _ none Q hQ _ (R.setBag hQ hw hbag _)).2

theorem orderly_readCell (c : CellRef) : Orderly R (readCell c) := .bind .get fun _ => .pure _

theorem orderly_setCell [R.Stores] (c : CellRef) (cell : Cell) : Orderly R (setCell c cell) :=
  .bind (orderly_readCell c) fun _ =>
    .bind (.store (fun _ _ => .setCell c cell) fun _ => .of_same rfl rfl) fun _ => orderly_discard _

theorem orderly_getterRun (g : Getter) (target : Option ObjectRef) :
    Orderly R (g.run target) := by
  cases g with
  | field name owner =>
    refine .bind (.lift (orderly_readBag? target)) fun b => ?_
    cases b with
    | some b => exact .pure _
    | none => exact orderly_throwCause _
  | slot name =>
    refine .bind (.lift (orderly_readBag? target)) fun b => ?_
    cases b <;> exact .pure _
  | cell c =>
    refine .bind (.lift (orderly_readCell c)) fun cell => ?_
    cases cell <;> exact .pure _
  | throws name => exact orderly_throwNamed name
  | arrayLength =>
    refine .bind (.lift (orderly_readItems? target)) fun items => ?_
    cases items with
    | some items => exact .pure _
    | none => exact orderly_throwCause _

theorem orderly_setterRun [R.Stores] (s : Setter) (target : Option ObjectRef) (v : HostValue) :
    Orderly R (s.run target v) := by
  cases s with
  | field name owner =>
    exact orderly_onBag (.bind (.lift (orderly_discard _)) fun _ => orderly_throwCause _)
      fun _ _ _ hQ hw hbag => R.setSlot hQ hw hbag name v
  | slot name =>
    exact orderly_onBag (.lift (orderly_discard _)) fun _ _ _ hQ hw hbag =>
      R.setSlot hQ hw hbag name v
  | cell c => exact .lift (orderly_setCell c _)
  | throws name => exact .bind (.lift (orderly_discard _)) fun _ => orderly_throwNamed name

theorem orderly_indexerGet (o : ObjectRef) (key : HostValue) : Orderly R (indexerGet o key) := by
  refine .guard (orderly_throwNamed _) ?_
  refine .bind .get fun w => .bind (.lift (orderly_readBag? _)) fun b => ?_
  cases b with
  | some b => exact .pure _
  | none => exact .pure _

theorem orderly_indexerSet [R.Stores] (o : ObjectRef) (key v : HostValue) :
    Orderly R (indexerSet o key v) := by
  have hthrow : Orderly R (do
      discard v.refs
      throwNamed "set item" : Host PUnit) :=
    .bind (.lift (orderly_discard _)) fun _ => orderly_throwNamed _
  refine .guard hthrow ?_
  refine .bind .get fun w => orderly_onBag (.lift (orderly_discard _)) fun Q _ b hQ hw hbag => ?_
  exact (orderly_discard _ none Q hQ _ (R.setBag hQ hw hbag _)).2

theorem orderly_change [R.Stores] (hook : EventHook) (name : String) (target : Option ObjectRef)
    (change : List ObjectRef → List ObjectRef) : Orderly R (hook.change name target change) := by
  cases hook with
  | throws exception => exact orderly_throwNamed exception
  | handlers event shared =>
    cases target with
    | some o =>
      exact orderly_onBag (orderly_throwNamed _) fun _ _ _ hQ hw hbag => R.setBag hQ hw hbag _
    | none =>
      refine .bind (.lift (orderly_readCell shared)) fun cell => ?_
      cases cell <;> exact .lift (orderly_setCell _ _)

theorem orderly_subscribe [R.Stores] (e : Event) (target : Option ObjectRef) (handler : ObjectRef) :
    Orderly R (e.subscribe target handler) :=
  orderly_change _ _ _ _

theorem orderly_unsubscribe [R.Stores] (e : Event) (target : Option ObjectRef)
    (handler : ObjectRef) : Orderly R (e.unsubscribe target handler) :=
  .bind (orderly_change _ _ _ _) fun _ => .lift (orderly_discard _)

theorem orderly_trackEvent (subscription handler : ObjectRef) :
    Orderly R (trackEvent subscription handler) :=
  orderly_modifySession fun _ => rfl

theorem orderly_untrackEvent (handler : ObjectRef) : Orderly R (untrackEvent handler) :=
  .bind orderly_readSession fun _ =>
    .bind (orderly_modifySession fun _ => rfl) fun _ => orderly_discard _

/-! ## Operands of handlers -/

theorem orderly_selfObject : Orderly R selfObject := by
  refine .bind (.lift (orderly_valueAt 1)) fun v =>
    .bind (.lift (orderly_objectBehind? v)) fun ref => ?_
  cases ref with
  | none => exact orderly_throwCause _
  | some ref =>
    refine .bind (.lift (orderly_readObject? ref)) fun o => ?_
    cases o with
    | some o => exact .pure _
    | none => exact orderly_throwCause _

theorem orderly_selfType : Orderly R selfType := by
  refine .bind orderly_selfObject fun ⟨_, o⟩ => ?_
  dsimp only
  cases o.typeTarget? with
  | some cls => exact .pure _
  | none => exact orderly_throwCause _

theorem orderly_keyName (i : Int) : Orderly R (keyName i) :=
  .bind orderly_readMachine fun _ => .pure _

theorem orderly_convertSlot (i : Int) (t : HostType) : Orderly R (convertSlot i t) := by
  refine .bind (.lift (orderly_valueAt i)) fun v => .bind (.lift (orderly_asType t v))
    fun converted => ?_
  cases converted with
  | some v => exact .pure _
  | none => exact .bind (.lift orderly_readMachine) fun _ => orderly_throwCause _

theorem orderly_arrayPosition (length : Nat) : Orderly R (arrayPosition length) := by
  refine .bind (.lift (orderly_valueAt 2)) fun v => ?_
  dsimp only
  split
  · exact .pure _
  · exact .bind (.lift (orderly_keyName 2)) fun _ => orderly_throwCause _

theorem orderly_arrayLength (s : Session) (n : Number) : Orderly R (arrayLength s n) := by
  unfold arrayLength
  dsimp only
  split
  · exact .pure _
  · exact .bind (.lift (orderly_keyName 2)) fun _ => orderly_throwCause _

theorem orderly_namedMember? [R.Learns] (cls : Class) (binding : Binding) :
    Orderly R (namedMember? cls binding) := by
  refine .bind (orderly_valueAt 2) fun v => ?_
  cases v with
  | text name => exact .bind (orderly_member? _ _ _) fun _ => .pure _
  | _ => exact .pure _

/-! ## Assignments -/

theorem orderly_assignMember [R.Stores] (target : Option ObjectRef) (cls : Class) (name : String)
    (found : FoundMember) : Orderly R (assignMember target cls name found) := by
  have hset (f : Field) (set : Setter) : Orderly R (do
      let v ← convertSlot 3 f.type
      set.run target v : Host Unit) :=
    .bind (orderly_convertSlot _ _) fun _ => orderly_setterRun _ _ _
  unfold assignMember
  cases found with
  | field f =>
    dsimp only
    cases f.set with
    | none => exact orderly_throwCause _
    | some set => exact hset f set
  | property f =>
    dsimp only
    cases f.set with
    | none => exact orderly_throwCause _
    | some set => exact hset f set
  | _ => exact orderly_throwCause _

theorem orderly_assignNamed [R.Learns] [R.Stores] (ref : ObjectRef) (cls : Class) :
    Orderly R (assignNamed ref cls) := by
  refine .bind (.lift (orderly_valueAt 2)) fun v => ?_
  cases v with
  | text name =>
    refine .bind (.lift (orderly_member? _ _ _)) fun found => ?_
    split
    · exact .bind (orderly_assignMember _ _ _ _) fun _ => .pure _
    · refine .bind (.lift (orderly_member? _ _ _)) fun found => ?_
      split
      · exact orderly_throwCause _
      · exact .pure _
  | _ => exact .pure _

theorem orderly_assignElement [R.Fills] (ref : ObjectRef) (o : HostObject) :
    Orderly R (assignElement ref o) := by
  refine .bind (.lift (orderly_valueAt 2)) fun v => ?_
  split
  · exact .bind (orderly_arrayPosition _) fun _ => .bind (orderly_convertSlot _ _) fun _ =>
      .bind (.lift (orderly_setObjectData _ _)) fun _ =>
        .bind (.lift (orderly_discard _)) fun _ => .pure _
  · exact .pure _

theorem orderly_assignIndexed [R.Stores] (ref : ObjectRef) (o : HostObject) :
    Orderly R (assignIndexed ref o) := by
  refine .bind (.lift (orderly_indexerClass? _)) fun owner => ?_
  cases owner with
  | none => exact .pure _
  | some owner =>
    dsimp only
    cases owner.indexer with
    | none => exact .pure _
    | some indexer =>
      refine .guard (orderly_throwCause _) ?_
      refine .bind (orderly_convertSlot _ _) fun key =>
        .bind (.lift (orderly_convertSlot _ _).attempt) fun v => ?_
      cases v with
      | ok v => exact .bind (orderly_indexerSet _ _ _) fun _ => .pure _
      | error e => exact .bind (.lift (orderly_discard _)) fun _ => .throw _

theorem orderly_objectAssign [R.Learns] [R.Fills] : Orderly R objectAssign := by
  have hdone : Orderly R (do
      (pure () : Host Unit)
      return 0 : Host Nat) := .bind (.pure ()) fun _ => .pure 0
  refine .bind orderly_selfObject fun ⟨ref, o⟩ =>
    .bind (orderly_assignNamed ref o.cls) fun named => ?_
  dsimp only
  split
  · exact hdone
  · refine .bind (orderly_assignElement ref o) fun element => ?_
    split
    · exact hdone
    · refine .bind (orderly_assignIndexed ref o) fun indexed => ?_
      split
      · exact hdone
      · exact .bind (.lift (orderly_keyName 2)) fun _ =>
          .bind (orderly_throwCause _) fun _ => .pure _

theorem orderly_typeAssign [R.Learns] [R.Stores] : Orderly R typeAssign := by
  refine .bind orderly_selfType fun cls => .bind (.lift (orderly_keyName 2)) fun name =>
    .bind (.lift (orderly_member? _ _ _)) fun found => ?_
  cases found with
  | some found => exact .bind (orderly_assignMember _ _ _ _) fun _ => .pure _
  | none => exact orderly_throwCause _

theorem orderly_proxyCollected : Orderly R proxyCollected := by
  refine .bind .get fun w => .bind (orderly_valueAt 1) fun v => ?_
  dsimp only
  split
  · exact .bind (orderly_forget _) fun _ => .pure _
  · exact .bind (.pure ()) fun _ => .pure _

/-! ## Choosing by signature -/

theorem orderly_classArgument : Orderly R classArgument := by
  refine .bind (.lift (orderly_valueAt 1)) fun v =>
    .bind (.lift (orderly_objectBehind? v)) fun ref => ?_
  cases ref with
  | none => exact orderly_throwCause _
  | some ref =>
    refine .bind (.lift (orderly_readObject? ref)) fun o => ?_
    dsimp only
    split <;> exact .pure _

theorem orderly_signatureArguments (first : Int) : Orderly R (signatureArguments first) :=
  .bind orderly_readMachine fun _ => .pure _

/-! ## Descriptions -/

theorem orderly_showHost (v : HostValue) (depth : Nat := defaultDepth) :
    Orderly R (showHost v depth) :=
  .bind .get fun _ => .pure _

theorem orderly_showObject (o : ObjectRef) (depth : Nat) : Orderly R (showObject o depth) :=
  .bind .get fun _ => .pure _

theorem orderly_showException (e : Exception) : Orderly R (showException e) :=
  .bind .get fun _ => .pure _

theorem orderly_showValue (v : Value) : Orderly R (showValue v) := .bind .get fun _ => .pure _

/-! ## Literals -/

theorem orderly_writeItems (t : TableRef) (i : Nat) (vs : List Value) :
    Orderly R (writeItems t i vs) := by
  induction vs generalizing i with
  | nil => exact .pure _
  | cons v rest ih =>
    unfold writeItems
    dsimp only
    split
    · exact .bind (orderly_rawSetInt _ _ _) fun _ => ih _
    · exact ih _

theorem orderly_writeEntries (t : TableRef) (entries : List (Value × Value)) :
    Orderly R (writeEntries t entries) := by
  induction entries with
  | nil => exact .pure _
  | cons e rest ih => exact .bind (orderly_rawSet _ _ _).attempt fun _ => ih

mutual

theorem orderly_literalBuild (l : Literal) : Orderly R l.build := by
  cases l with
  | kept name => exact .bind .get fun _ => .pure _
  | table items entries =>
    exact .bind (orderly_newTable _) fun t => .bind (orderly_buildLiterals items) fun _ =>
      .bind (orderly_writeItems _ _ _) fun _ => .bind (orderly_buildEntries entries) fun _ =>
        .bind (orderly_writeEntries _ _) fun _ => .pure _
  | function label body => exact .bind (orderly_newFunction _) fun _ => .pure _
  | _ => exact .pure _

theorem orderly_buildLiterals (ls : List Literal) : Orderly R (buildLiterals ls) := by
  match ls with
  | [] => exact .pure _
  | l :: rest =>
    exact .bind (orderly_literalBuild l) fun _ =>
      .bind (orderly_buildLiterals rest) fun _ => .pure _

theorem orderly_buildEntries (es : List (Literal × Literal)) :
    Orderly R (buildEntries es) := by
  match es with
  | [] => exact .pure _
  | (k, v) :: rest =>
    exact .bind (orderly_literalBuild k) fun _ => .bind (orderly_literalBuild v) fun _ =>
      .bind (orderly_buildEntries rest) fun _ => .pure _

end

theorem orderly_classNamed (name : String) : Orderly R (classNamed name) :=
  .bind orderly_readSession fun _ => .pure _

mutual

theorem orderly_hostLiteralBuild (l : HostLiteral) : Orderly R l.build := by
  cases l with
  | value v => exact .pure _
  | «variable» name => exact .bind .get fun _ => .pure _
  | object className slots =>
    exact .bind (orderly_classNamed _) fun _ => .bind (orderly_buildSlots slots) fun _ =>
      .bind (orderly_newObject _ _) fun _ => .pure _
  | foreign className =>
    exact .bind (orderly_classNamed _) fun _ => .bind (orderly_newObject _ _) fun _ => .pure _
  | array element items =>
    exact .bind (orderly_buildHostLiterals items) fun _ =>
      .bind (orderly_newArray _ _) fun _ => .pure _
  | typeObject className =>
    exact .bind (orderly_classNamed _) fun _ => .bind (orderly_newObject _ _) fun _ => .pure _
  | delegate className body =>
    exact .bind (orderly_classNamed _) fun _ => .bind (orderly_newObject _ _) fun _ => .pure _

theorem orderly_buildHostLiterals (ls : List HostLiteral) :
    Orderly R (buildHostLiterals ls) := by
  match ls with
  | [] => exact .pure _
  | l :: rest =>
    exact .bind (orderly_hostLiteralBuild l) fun _ =>
      .bind (orderly_buildHostLiterals rest) fun _ => .pure _

theorem orderly_buildSlots (slots : List (String × HostLiteral)) :
    Orderly R (buildSlots slots) := by
  match slots with
  | [] => exact .pure _
  | (name, l) :: rest =>
    exact .bind (orderly_hostLiteralBuild l) fun _ =>
      .bind (orderly_buildSlots rest) fun _ => .pure _

end

theorem orderly_mapM {m : Type → Type} [Monad m] [LawfulMonad m] [MonadStateOf World m]
    [Program m] {α β : Type} {f : α → m β} (h : ∀ a, Orderly R (f a)) (l : List α) :
    Orderly R (l.mapM f) :=
  fun Q hQ => agree_mapM (fun a => h a Q hQ) l

theorem orderly_paramSpecBuild (p : ParamSpec) : Orderly R p.build := by
  unfold ParamSpec.build
  cases p.default with
  | none => exact .bind (.pure none) fun _ => .pure _
  | some l =>
    exact .bind (.bind (orderly_hostLiteralBuild l) fun _ => .pure _) fun _ => .pure _

end ScriptBridge
