import ScriptBridge.Bridge.Dispatch
import ScriptBridge.Proofs.Course.Identity

/-!
# Conversions step by step

Conversions of values, the matching of arguments, the replay of plans and the preparation of a call
are orderly under every regime.
-/

namespace ScriptBridge

variable {R : Regime}

/-! ## Conversions -/

theorem orderly_fittingObject? (v : Value) (t : HostType) : Orderly R (fittingObject? v t) :=
  .bind .get fun _ => .pure _

theorem orderly_newArray (element : HostType) (items : Array HostValue) :
    Orderly R (newArray element items) := by
  refine .of_action fun Q w hQ hw => ?_
  have hset : Q (modifySession (fun s => { s with
      catalog := ((w.machine.session.getD default).catalog.arrayClass element).2 }) w).2 := by
    refine R.catalog hQ hw fun s hs => ?_
    rw [hs]
    exact .array (.refl _) element
  exact (orderly_newObject _ _ Q hQ _ hset).2

theorem orderly_toHost (v : Value) : Orderly R (toHost v) := by
  cases v with
  | table t => exact .bind (orderly_toHandle _) fun _ => .pure _
  | function f => exact .bind (orderly_toHandle _) fun _ => .pure _
  | userdata u =>
    refine .bind .get fun w => ?_
    cases w.proxyId? (.userdata u) with
    | some id => exact .pure _
    | none => exact .bind (orderly_toHandle _) fun _ => .pure _
  | _ => exact .pure _

theorem orderly_makeDelegate (cls : Class) (function : HandleRef) :
    Orderly R (makeDelegate cls function) := by
  unfold makeDelegate
  cases cls.invokeMethod? with
  | some signature => exact .bind (orderly_newObject _ _) fun _ => .pure _
  | none => exact .bind (orderly_discard _) fun _ => .pure _

theorem orderly_makeInterface (cls : Class) (table : HandleRef) :
    Orderly R (makeInterface cls table) := by
  unfold makeInterface
  split
  · exact .bind (orderly_newObject _ _) fun _ => .pure _
  · exact .bind (orderly_discard _) fun _ => .pure _

theorem orderly_delegateFor (cls : Class) (function : HandleRef) :
    Orderly R (delegateFor cls function) := by
  refine .bind orderly_readSession fun s => ?_
  split
  · exact .bind (orderly_discard _) fun _ => .pure _
  · exact orderly_makeDelegate cls function

theorem orderly_interfaceFor (cls : Class) (table : HandleRef) :
    Orderly R (interfaceFor cls table) := by
  refine .bind orderly_readSession fun s => ?_
  split
  · exact .bind (orderly_discard _) fun _ => .pure _
  · exact orderly_makeInterface cls table

theorem orderly_convertItem {convert : Value → Action (Option HostValue)}
    (h : ∀ v, Orderly R (convert v)) (t : TableRef) (position : Int) :
    Orderly R (convertItem convert t position) := by
  have hitem : Orderly R (valueAt (-1) >>= convert) := .bind (orderly_valueAt _) h
  refine .bind (orderly_rawGetInt t position) fun v => ?_
  exact Alike.pushed
    (f := fun item v => do
      discard v.refs
      return item)
    v hitem fun _ _ => .bind (orderly_discard _) fun _ => .pure _

theorem orderly_convertItems {convert : Value → Action (Option HostValue)}
    (h : ∀ v, Orderly R (convert v)) (t : TableRef) (n : Nat) (position : Int)
    (done : List HostValue) : Orderly R (convertItems convert t n position done) := by
  induction n generalizing position done with
  | zero => exact .pure _
  | succ n ih =>
    refine .bind (orderly_convertItem h t position) fun item => ?_
    cases item with
    | some item => exact ih _ _
    | none => exact .bind (orderly_release _) fun _ => .pure _

theorem orderly_readItems {convert : Value → Action (Option HostValue)}
    (h : ∀ v, Orderly R (convert v)) (v : Value) : Orderly R (readItems convert v) := by
  cases v with
  | table t =>
    exact .bind (orderly_rawLength _) fun n => orderly_convertItems h t n 1 []
  | _ => exact .pure _

theorem orderly_matchObject (t : HostType) (v : Value) : Orderly R (matchObject t v) :=
  .bind (orderly_fittingObject? v t) fun _ => .pure _

theorem orderly_matchClass (t : HostType) (name : String) (v : Value) :
    Orderly R (matchClass t name v) := by
  refine .bind orderly_readSession fun s => ?_
  split
  · split
    · exact .pure _
    · exact orderly_matchObject t _
  · split
    · exact .bind (orderly_fittingObject? _ t) fun _ => .pure _
    · exact orderly_matchObject t _
  · exact orderly_matchObject t _

section

variable {items : ItemReader} (hitems : ∀ v, Orderly R (items v))
include hitems

theorem orderly_itemsConvert (v : Value) : Orderly R (itemsConvert items v) := by
  refine .bind (hitems v) fun converted => ?_
  cases converted with
  | some converted => exact .bind (orderly_release _) fun _ => .pure _
  | none => exact .pure _

theorem orderly_matchArray (element : HostType) (v : Value) :
    Orderly R (matchArray items element v) := by
  refine .bind (orderly_objectBehind? v) fun o => ?_
  split
  · exact .bind (orderly_itemsConvert hitems v) fun _ => .pure _
  · exact orderly_matchObject _ v

theorem orderly_matchType (t : HostType) (v : Value) : Orderly R (matchType items t v) := by
  unfold matchType
  split
  · exact .pure _
  · cases t.unwrapNullable with
    | array element =>
      dsimp only
      split
      · exact .pure _
      · exact orderly_matchArray hitems element v
    | named name =>
      dsimp only
      split
      · exact .pure _
      · exact orderly_matchClass t name v
    | _ => exact .pure _

/-- Reading by a conversion other than the general one and that of scalars. -/
theorem orderly_readAs (c : Conversion) (v : Value) : Orderly R (readAs items c v) := by
  cases c with
  | scalar t =>
    unfold readAs
    dsimp only
    split <;> exact .pure _
  | any => exact .bind (orderly_toHost v) fun _ => .pure _
  | handle kind =>
    unfold readAs
    dsimp only
    split
    · exact .pure _
    · split
      · exact .bind (orderly_toHandle v) fun _ => .pure _
      · exact .pure _
  | object t =>
    unfold readAs
    dsimp only
    split
    · exact .pure _
    · exact .bind (orderly_fittingObject? v t) fun _ => .pure _
  | arrayTable element =>
    unfold readAs
    dsimp only
    split
    · exact .pure _
    · refine .bind (hitems v) fun converted => ?_
      cases converted with
      | some converted => exact .bind (orderly_newArray _ _) fun _ => .pure _
      | none => exact .pure _
  | delegate cls =>
    cases v with
    | function f =>
      exact .bind (orderly_toHandle _) fun _ =>
        .bind (orderly_delegateFor cls _) fun _ => .pure _
    | _ => exact .pure _
  | interface cls =>
    cases v with
    | table t =>
      exact .bind (orderly_toHandle _) fun _ =>
        .bind (orderly_interfaceFor cls _) fun _ => .pure _
    | _ => exact .pure _

theorem orderly_convertWith (t : HostType) (v : Value) :
    Orderly R (convertWith items t v) := by
  refine .bind (orderly_matchType hitems t v) fun c => ?_
  cases c with
  | some c => exact orderly_readAs hitems c v
  | none => exact .pure _

end

theorem orderly_noItems (v : Value) : Orderly R (noItems v) := .pure _

theorem orderly_asType (t : HostType) (v : Value) : Orderly R (asType t v) := by
  unfold asType
  split
  · exact orderly_convertWith (orderly_readItems fun v => orderly_asType _ v) _ _
  · exact orderly_convertWith (orderly_readItems fun v => orderly_asType _ v) _ _
  · exact orderly_convertWith orderly_noItems _ _

theorem orderly_tableToArray (element : HostType) (v : Value) :
    Orderly R (tableToArray element v) :=
  orderly_readItems (orderly_asType element) v

theorem orderly_itemsFor (t : HostType) (v : Value) : Orderly R (itemsFor t v) := by
  unfold itemsFor
  cases t.unwrapNullable with
  | array e => exact orderly_tableToArray e v
  | _ => exact orderly_noItems v

theorem orderly_checkType (t : HostType) (v : Value) : Orderly R (checkType t v) :=
  orderly_matchType (orderly_itemsFor t) t v

theorem orderly_extract (c : Conversion) (v : Value) : Orderly R (c.extract v) := by
  unfold Conversion.extract
  cases c with
  | arrayTable e => exact orderly_readAs (orderly_tableToArray e) _ v
  | _ => exact orderly_readAs orderly_noItems _ v

/-! ## Matching arguments -/

theorem orderly_matchRun (element : HostType) (arguments : List Value) :
    Orderly R (matchRun element arguments) := by
  induction arguments with
  | nil => exact .pure _
  | cons v rest ih =>
    refine .bind (orderly_checkType element v) fun c => ?_
    cases c with
    | some c => exact .bind ih fun _ => .pure _
    | none => exact .pure _

/-- What is tried when the first of the remaining arguments is no table of the whole array. -/
theorem orderly_matchVariadicRest (element : HostType) (rest : List Value) (whole : Bool) :
    Orderly R (do
      if whole then return some (ArgumentSource.single (.arrayTable element), 1)
      match ← matchRun element rest with
      | [] => return none
      | cs => return some (.run element cs, cs.length) : Action _) := by
  split
  · exact .pure _
  · refine .bind (orderly_matchRun element rest) fun cs => ?_
    cases cs <;> exact .pure _

theorem orderly_matchVariadic (element : HostType) (rest : List Value) :
    Orderly R (matchVariadic element rest) := by
  unfold matchVariadic
  cases rest.head? with
  | some v =>
    exact .bind (orderly_itemsConvert (orderly_tableToArray element) v) fun whole =>
      orderly_matchVariadicRest element rest whole
  | none => exact .bind (.pure false) fun whole => orderly_matchVariadicRest element rest whole

theorem orderly_fillParam (arguments : List Value) (f : Filling) (p : Param) :
    Orderly R (fillParam arguments f p) := by
  unfold fillParam
  split
  · exact .pure _
  · cases arguments.drop f.cursor with
    | nil => exact .pure _
    | cons v rest =>
      refine .bind (orderly_checkType p.type v) fun c => ?_
      cases c with
      | some c => exact .pure _
      | none =>
        dsimp only
        split
        · refine .bind (orderly_matchVariadic _ _) fun found => ?_
          cases found <;> exact .pure _
        · exact .bind (.pure none) fun found => by cases found <;> exact .pure _

theorem orderly_fillParams (arguments : List Value) (params : List Param) (f : Filling) :
    Orderly R (fillParams arguments params f) := by
  induction params generalizing f with
  | nil => exact .pure _
  | cons p rest ih =>
    refine .bind (orderly_fillParam arguments f p) fun g => ?_
    cases g with
    | some g => exact ih g
    | none => exact .pure _

theorem orderly_matchParameters (m : Method) (arguments : List Value) :
    Orderly R (matchParameters m arguments) := by
  refine .bind (orderly_fillParams arguments _ _) fun f => ?_
  cases f with
  | none => exact .pure _
  | some f =>
    dsimp only
    split <;> exact .pure _

/-! ## Replaying plans -/

theorem orderly_extractRun (cs : List Conversion) (arguments : List Value) (position : Nat)
    (done : List HostValue) : Orderly R (extractRun cs arguments position done) := by
  induction cs generalizing arguments position done with
  | nil => exact .pure _
  | cons c cs ih =>
    refine .bind (orderly_extract c _) fun item => ?_
    cases item with
    | some item => exact ih _ _ _
    | none => exact .bind (orderly_release _) fun _ => .pure _

theorem orderly_slotExtract (s : ArgumentSlot) (arguments : List Value) :
    Orderly R (s.extract arguments) := by
  unfold ArgumentSlot.extract
  cases s.source with
  | single c =>
    refine .bind (orderly_extract c _) fun v => ?_
    cases v <;> exact .pure _
  | run element cs =>
    refine .bind (orderly_extractRun cs _ _ []) fun items => ?_
    cases items with
    | ok items => exact .bind (orderly_newArray _ _) fun _ => .pure _
    | error e => exact .pure _
  | emptyArray element => exact .bind (orderly_newArray _ _) fun _ => .pure _

theorem orderly_extractSlots (arguments : List Value) (slots : List ArgumentSlot)
    (done : List HostValue) : Orderly R (extractSlots arguments slots done) := by
  induction slots generalizing done with
  | nil => exact .pure _
  | cons s rest ih =>
    refine .bind (orderly_slotExtract s arguments) fun v => ?_
    cases v with
    | ok v => exact ih _
    | error e => exact .bind (orderly_release _) fun _ => .pure _

theorem orderly_replay (p : Plan) (arguments : List Value) : Orderly R (p.replay arguments) := by
  unfold Plan.replay
  split
  · exact .pure _
  · exact orderly_extractSlots _ _ _

theorem orderly_tryCandidate (m : Method) (arguments : List Value) :
    Orderly R (tryCandidate m arguments) := by
  refine .bind (orderly_matchParameters m arguments) fun p => ?_
  cases p with
  | none => exact .pure _
  | some p =>
    refine .bind (orderly_replay p arguments) fun converted => ?_
    cases converted <;> exact .pure _

theorem orderly_resolve (candidates : List Method) (arguments : List Value) :
    Orderly R (resolve candidates arguments) := by
  induction candidates with
  | nil => exact .pure _
  | cons m rest ih =>
    refine .bind (orderly_tryCandidate m arguments) fun found => ?_
    cases found with
    | some found => exact .pure _
    | none => exact ih

/-! ## Preparing a call -/

theorem orderly_readDispatcher? (d : DispatcherRef) : Orderly R (readDispatcher? d) :=
  .bind .get fun _ => .pure _

theorem orderly_setPlan (d : DispatcherRef) (plan : Option Plan) : Orderly R (setPlan d plan) :=
  .modify (fun _ _ => .setPlan d plan) fun _ => .of_same rfl rfl rfl

theorem orderly_forgetPlan (d : DispatcherRef) : Orderly R (forgetPlan d) :=
  .bind (orderly_readDispatcher? d) fun _ =>
    .bind (orderly_setPlan d none) fun _ => orderly_discard _

theorem orderly_takePlan (d : DispatcherRef) : Orderly R (takePlan d) :=
  .bind (orderly_readDispatcher? d) fun _ =>
    .bind (orderly_setPlan d none) fun _ => .bind (orderly_hold _) fun _ => .pure _

theorem orderly_putPlan (d : DispatcherRef) (plan : Plan) : Orderly R (putPlan d plan) :=
  .bind (orderly_forgetPlan d) fun _ =>
    .bind (orderly_setPlan d _) fun _ => orderly_handOver _

theorem orderly_findTarget (d : Dispatcher) : Orderly R (findTarget d) := by
  unfold findTarget
  split
  · exact .pure _
  · cases d.bound with
    | some o => exact .pure _
    | none =>
      refine .bind (.lift (orderly_valueAt 1)) fun v =>
        .bind (.lift (orderly_fittingObject? v _)) fun o => ?_
      cases o with
      | some o => exact .pure _
      | none => exact orderly_raiseCause _

theorem orderly_resolveCall (d : Dispatcher) (arguments : List Value) :
    Orderly R (resolveCall d arguments) := by
  refine .bind (orderly_resolve _ _) fun found => ?_
  cases found with
  | some found => exact .bind (orderly_hold _) fun _ => .pure _
  | none => exact .pure _

theorem orderly_prepare (d : Dispatcher) (cached : Option Plan) (arguments : List Value) :
    Orderly R (prepare d cached arguments) := by
  cases cached with
  | none => exact orderly_resolveCall d arguments
  | some plan =>
    refine .bind (orderly_replay plan arguments) fun result => ?_
    cases result with
    | ok converted => exact .pure _
    | error reason =>
      refine .bind (orderly_unhold _) fun _ => ?_
      split
      · exact .pure _
      · exact orderly_resolveCall d arguments

end ScriptBridge
