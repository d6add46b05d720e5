import ScriptBridge.Proofs.Bridge.Handles
import ScriptBridge.Proofs.Bridge.TypedRoundTrip
import ScriptBridge.Proofs.Conversion.Reading
import ScriptBridge.Proofs.Dispatch.Consumption
import ScriptBridge.Proofs.Vm.Steady

/-!
# Reading values disturbs nothing

A tidy action gives out references in order only, and from a steady world on it leaves whatever
reading sees as it was. Matching, conversions, plans and the choice of a candidate are tidy.
-/

namespace ScriptBridge

/-! ## Tidy actions -/

/-- References are numbered upwards. -/
def Ascends {α : Type} (x : Action α) : Prop :=
  ∀ w, w.machine.nextRef ≤ (x w).2.machine.nextRef

/-- From steady worlds on, the action disturbs nothing, as long as numbers of references are in
range. -/
structure Tidy {α : Type} (x : Action α) : Prop where
  ascends : Ascends x
  serene : ∀ w, w.Steady → (x w).2.machine.nextRef ≤ IntegerKind.i32.hi → w.Serene (x w).2

variable {α β : Type} {x : Action α} {f : α → Action β}

theorem Ascends.pure (a : α) : Ascends (pure a : Action α) := fun _ => Int.le_refl _

theorem Ascends.bind (hx : Ascends x) (hf : ∀ a, Ascends (f a)) : Ascends (x >>= f) :=
  fun w => Int.le_trans (hx w) (hf _ _)

theorem Ascends.of_eq (h : ∀ w, (x w).2.machine.nextRef = w.machine.nextRef) : Ascends x :=
  fun w => Int.le_of_eq (h w).symm

namespace Tidy

protected theorem pure (a : α) : Tidy (pure a : Action α) := ⟨.pure a, fun _ hw _ => .refl hw⟩

protected theorem get : Tidy (get : Action World) :=
  ⟨fun _ => Int.le_refl _, fun _ hw _ => .refl hw⟩

protected theorem bind (hx : Tidy x) (hf : ∀ a, Tidy (f a)) : Tidy (x >>= f) where
  ascends := hx.ascends.bind fun a => (hf a).ascends
  serene w hw hlimit := by
    have hserene := hx.serene w hw (Int.le_trans ((hf _).ascends _) hlimit)
    exact hserene.trans ((hf _).serene _ hserene.steady hlimit)

/-- A step outside the heap of the machine is tidy. -/
protected theorem of_host (hnext : ∀ w : World, (x w).2.machine.nextRef = w.machine.nextRef)
    (h : ∀ w : World, w.Steady → w.HostStep (x w).2) : Tidy x :=
  ⟨.of_eq hnext, fun w hw _ => (h w hw).serene hw⟩

end Tidy

/-! ## Cells of the host -/

theorem World.HostStep.of_dropped (w : World) (dropped : List Dropped) :
    w.HostStep { w with dropped } :=
  .of_same rfl rfl rfl rfl rfl rfl (fun _ _ => rfl) fun _ h => h

theorem mem_foldl_erase {r : Ref} {refs l : List Ref} (hr : r ∉ refs) (hl : r ∈ l) :
    r ∈ refs.foldl List.erase l := by
  induction refs generalizing l with
  | nil => exact hl
  | cons x rest ih =>
    rw [List.mem_cons, not_or] at hr
    exact ih hr.2 ((List.mem_erase_of_ne hr.1).mpr hl)

/-- Letting go of cells of the host. -/
theorem unhold_hostStep {refs : List Ref} (hrefs : HostOnly refs) (w : World) :
    w.HostStep (unhold refs w).2 := by
  have hhandOver : w.HostStep (handOver refs w).2 := by
    refine { World.HostStep.refl w with roots := fun r hr hroot => hroot.imp_right (.imp_right ?_) }
    intro hmem
    obtain hmem | hheld := List.mem_append.mp hmem
    · exact List.mem_append_left _ hmem
    · exact List.mem_append_right _ (mem_foldl_erase (fun h => hrefs r h hr) hheld)
  have hdiscard : (unhold refs w).2 = { (handOver refs w).2 with
      dropped := w.dropped ++ refs.map (⟨·, none⟩) } :=
    congrArg Prod.snd (discard_eq refs none (handOver refs w).2)
  rw [hdiscard]
  exact hhandOver.trans (.of_dropped _ _)

theorem tidy_discard (refs : List Ref) (during : Option TableRef := none) :
    Tidy (discard refs during) := by
  refine .of_host (fun w => ?_) fun w _ => ?_
  · rw [discard_eq]
  · rw [discard_eq]
    exact .of_dropped w _

theorem tidy_settle : Tidy settle :=
  .of_host World.settle_nextRef fun _ hw => World.settle_hostStep hw.settled

theorem tidy_release (refs : List Ref) (during : Option TableRef := none) :
    Tidy (release refs during) :=
  .bind (tidy_discard refs during) fun _ => tidy_settle

theorem tidy_readSession : Tidy readSession := .bind .get fun _ => .pure _

theorem tidy_newHandle (h : Handle) : Tidy (newHandle h) :=
  .of_host (fun _ => rfl) fun _ _ => .of_same rfl rfl rfl rfl rfl rfl (fun _ _ => rfl) fun _ h => h

theorem newObject_hostStep {w : World} (hmade : ∀ o, w.Exposes o → ¬ w.IsUnmade (.object o))
    (cls : Class) (data : ObjectData) : w.HostStep (newObject cls data w).2 :=
  .of_same rfl rfl rfl rfl rfl rfl
    (fun o ho => Store.get?_add_of_lt _ _ (Nat.lt_of_not_le (hmade o ho)))
    fun _ => World.unmade_of_newObject

theorem tidy_newObject (cls : Class) (data : ObjectData) : Tidy (newObject cls data) :=
  .of_host (fun _ => rfl) fun _ hw => newObject_hostStep hw.made cls data

theorem hostOnly_catalog (c : Catalog) : HostOnly c.refs := .flatMap (fun _ => hostOnly_class _) _

/-- Only the catalog of the session changes, which holds no cells of the machine. -/
theorem World.withArrayClass_hostStep (w : World) (e : HostType) :
    w.HostStep (w.withArrayClass e) := by
  have hsession : (w.withArrayClass e).machine.session = w.machine.session.map fun s =>
      { s with catalog := (w.catalog.arrayClass e).2 } := rfl
  refine { World.HostStep.refl w with
    sameStack := ⟨rfl, rfl, rfl⟩
    roots := fun r hr hroot => hroot.imp_left fun hmem => ?_
    session := ?_ }
  · unfold Machine.refs at hmem ⊢
    rw [hsession]
    obtain hmem | hmem := List.mem_append.mp hmem
    · exact List.mem_append_left _ hmem
    · refine List.mem_append_right _ ?_
      cases hs : w.machine.session with
      | none =>
        rw [hs] at hmem
        exact hmem
      | some s =>
        rw [hs] at hmem
        have hmem : r ∈ s.refs := hmem
        have hcatalog : r ∉ s.catalog.refs := fun h => hostOnly_catalog _ r h hr
        show r ∈ Session.refs _
        unfold Session.refs at hmem ⊢
        simp only [List.mem_append, or_assoc, hcatalog, false_or] at hmem
        simp only [List.mem_append, or_assoc]
        exact .inr hmem
  · unfold Machine.SessionLater
    rw [hsession]
    cases hs : w.machine.session with
    | none => trivial
    | some s =>
      refine ⟨rfl, rfl, rfl, rfl, rfl, ?_⟩
      rw [World.catalog_of_some hs]
      exact .array (.refl _) e

theorem newArray_hostStep {w : World} (hmade : ∀ o, w.Exposes o → ¬ w.IsUnmade (.object o))
    (e : HostType) (items : Array HostValue) : w.HostStep (newArray e items w).2 := by
  rw [newArray_eq]
  have hjoin := w.withArrayClass_hostStep e
  exact hjoin.trans (newObject_hostStep
    (fun o ho hu => hmade o ((World.exposes_iff hjoin.session o).mp ho) (hjoin.unmade o hu)) _ _)

theorem tidy_newArray (e : HostType) (items : Array HostValue) : Tidy (newArray e items) := by
  refine .of_host (fun w => ?_) fun w hw => newArray_hostStep hw.made e items
  rw [newArray_eq]
  rfl

/-! ## Handles -/

theorem ascends_push (v : Value) : Ascends (push v) := fun _ => Int.le_refl _

theorem ascends_popValue : Ascends popValue := .of_eq fun w => by
  show w.machine.popValue.2.nextRef = _
  rw [Machine.popValue_eq]

theorem tidy_toHandle (v : Value) : Tidy (toHandle v) where
  ascends := (ascends_push v).bind fun _ => ascends_popValue.bind fun v =>
    Ascends.bind (nextRef_createRef v) fun _ => tidy_readSession.ascends.bind fun _ =>
      (tidy_newHandle _).ascends
  serene w hw hlimit := by
    cases hcreate : createRef v w with | mk r w₁
    have hserene := createRef_serene hw v
    rw [hcreate] at hserene
    rw [toHandle_eq hw.frame hcreate] at hlimit ⊢
    have hserene := hserene hlimit
    exact hserene.trans ((tidy_newHandle _).serene w₁ hserene.steady hlimit)

/-! ## Items of tables -/

namespace World

variable {w w₁ : World}

theorem Undisturbed.push (h : w.Undisturbed w₁) (v : Value) :
    w.Undisturbed { w₁ with machine := w₁.machine.push v } :=
  { h with stack := fun x hx => Array.mem_push_of_mem v (h.stack x hx) }

theorem Steady.push (hw : w.Steady) (v : Value) :
    Steady { w with machine := w.machine.push v } where
  settled := (Undisturbed.refl w).push v |>.settled hw.settled
  frame := hw.frame.push v
  alive := hw.alive
  slots := hw.slots
  positive := hw.positive
  made := hw.made

/-- A value was pushed, and taken off again after something serene. -/
theorem Serene.popped (hw : w.Steady) {v : Value}
    (h : Serene { w with machine := w.machine.push v } w₁) :
    w.Serene { w₁ with machine := w₁.machine.popValue.2 } := by
  have hpop := h.sameStack.popValue.2
  rw [Machine.popValue_push hw.frame] at hpop
  have heq := Machine.popValue_eq w₁.machine
  obtain ⟨stack, hstack⟩ : ∃ stack, w₁.machine.popValue.2 = { w₁.machine with stack } := ⟨_, by
    rw [heq]⟩
  rw [hstack] at hpop ⊢
  have hundisturbed : w.Undisturbed { w₁ with machine := { w₁.machine with stack } } := {
    stack := fun v hv => by
      rw [hpop.stack]
      exact hv
    registry := h.undisturbed.registry
    tables := h.undisturbed.tables
    alive := h.undisturbed.alive
    slots := h.undisturbed.slots
    kept := h.undisturbed.kept
    functions := h.undisturbed.functions
    userdata := h.undisturbed.userdata
    roots := h.undisturbed.roots
    session := h.undisturbed.session
    objects := h.undisturbed.objects }
  refine ⟨?_, hpop, hundisturbed⟩
  exact {
    settled := hundisturbed.settled hw.settled
    frame := hpop.hasFrame hw.frame
    alive := h.steady.alive
    slots := h.steady.slots
    positive := h.steady.positive
    made := h.steady.made }

end World

section

variable {convert : Value → Action (Option HostValue)}

/-- The conversion of an item, and the world after it. -/
theorem convertItem_eq {w w₂ : World} {t : TableRef} {position : Int} {item : Option HostValue}
    (hframe : w.machine.HasFrame)
    (hitem : convert ((w.table t).getInt w.isLive position)
      { w with machine := w.machine.push ((w.table t).getInt w.isLive position) } = (item, w₂)) :
    convertItem convert t position w =
      (item, (discard w₂.machine.popValue.1.refs none
        { w₂ with machine := w₂.machine.popValue.2 }).2) := by
  let v := (w.table t).getInt w.isLive position
  let w₁ : World := { w with machine := w.machine.push v }
  have hread : rawGetInt t position w = (v, w) := rfl
  have hpush : push v w = ((), w₁) := rfl
  have htop : valueAt (-1) w₁ = (v, w₁) := congrArg (·, w₁) (Machine.value_push hframe v)
  have hpop : popValue w₂ =
      (w₂.machine.popValue.1, { w₂ with machine := w₂.machine.popValue.2 }) := rfl
  unfold convertItem
  rw [bind_of_eq hread, bind_of_eq hpush, bind_of_eq htop, bind_of_eq hitem, bind_of_eq hpop]
  rfl

theorem nextRef_convertItem {w w₂ : World} {t : TableRef} {position : Int}
    {item : Option HostValue} (hframe : w.machine.HasFrame)
    (hitem : convert ((w.table t).getInt w.isLive position)
      { w with machine := w.machine.push ((w.table t).getInt w.isLive position) } = (item, w₂)) :
    (convertItem convert t position w).2.machine.nextRef = w₂.machine.nextRef := by
  rw [convertItem_eq hframe hitem, discard_eq]
  show w₂.machine.popValue.2.nextRef = _
  rw [Machine.popValue_eq]

variable (h : ∀ v, Tidy (convert v))
include h

theorem tidy_convertItem (t : TableRef) (position : Int) :
    Tidy (convertItem convert t position) where
  ascends := Ascends.bind (fun _ => Int.le_refl _) fun v => (ascends_push v).bind fun _ =>
    Ascends.bind (fun _ => Int.le_refl _) fun v => (h v).ascends.bind fun _ =>
      ascends_popValue.bind fun v => (tidy_discard v.refs).ascends.bind fun _ => .pure _
  serene w hw hlimit := by
    let v := (w.table t).getInt w.isLive position
    let w₁ : World := { w with machine := w.machine.push v }
    have hconvert := (h v).serene w₁ (hw.push v)
    cases hitem : convert v w₁ with | mk item w₂
    rw [hitem] at hconvert
    rw [nextRef_convertItem hw.frame hitem] at hlimit
    rw [convertItem_eq hw.frame hitem, discard_eq]
    -- The item was on the stack meanwhile, which is compared with the world before it was pushed.
    have hserene : w.Serene { w₂ with machine := w₂.machine.popValue.2 } :=
      .popped hw (hconvert hlimit)
    exact hserene.trans ((World.HostStep.of_dropped _ _).serene hserene.steady)

theorem tidy_convertItems (t : TableRef) (n : Nat) (position : Int) (done : List HostValue) :
    Tidy (convertItems convert t n position done) := by
  induction n generalizing position done with
  | zero => exact .pure _
  | succ n ih =>
    refine .bind (tidy_convertItem h t position) fun item => ?_
    cases item with
    | some item => exact ih _ _
    | none => exact .bind (tidy_release _) fun _ => .pure _

theorem tidy_readItems (v : Value) : Tidy (readItems convert v) := by
  cases v with
  | table t => exact .bind (.bind .get fun _ => .pure _) fun n => tidy_convertItems h t n 1 []
  | _ => exact .pure _

end

/-! ## Matching and reading -/

theorem tidy_fittingObject? (v : Value) (t : HostType) : Tidy (fittingObject? v t) :=
  .bind .get fun _ => .pure _

theorem tidy_objectBehind? (v : Value) : Tidy (objectBehind? v) := .bind .get fun _ => .pure _

theorem tidy_matchObject (t : HostType) (v : Value) : Tidy (matchObject t v) :=
  .bind (tidy_fittingObject? v t) fun _ => .pure _

theorem tidy_matchClass (t : HostType) (name : String) (v : Value) :
    Tidy (matchClass t name v) := by
  refine .bind tidy_readSession fun s => ?_
  split
  · split
    · exact .pure _
    · exact tidy_matchObject t _
  · split
    · exact .bind (tidy_fittingObject? _ t) fun _ => .pure _
    · exact tidy_matchObject t _
  · exact tidy_matchObject t _

theorem tidy_toHost (v : Value) : Tidy (toHost v) := by
  cases v with
  | table t => exact .bind (tidy_toHandle _) fun _ => .pure _
  | function f => exact .bind (tidy_toHandle _) fun _ => .pure _
  | userdata u =>
    refine .bind .get fun w => ?_
    cases w.proxyId? (.userdata u) with
    | some id => exact .pure _
    | none => exact .bind (tidy_toHandle _) fun _ => .pure _
  | _ => exact .pure _

theorem tidy_delegateFor (cls : Class) (function : HandleRef) :
    Tidy (delegateFor cls function) := by
  refine .bind tidy_readSession fun s => ?_
  split
  · exact .bind (tidy_discard _) fun _ => .pure _
  · unfold makeDelegate
    cases cls.invokeMethod? with
    | some signature => exact .bind (tidy_newObject _ _) fun _ => .pure _
    | none => exact .bind (tidy_discard _) fun _ => .pure _

theorem tidy_interfaceFor (cls : Class) (table : HandleRef) : Tidy (interfaceFor cls table) := by
  refine .bind tidy_readSession fun s => ?_
  split
  · exact .bind (tidy_discard _) fun _ => .pure _
  · unfold makeInterface
    split
    · exact .bind (tidy_newObject _ _) fun _ => .pure _
    · exact .bind (tidy_discard _) fun _ => .pure _

section

variable {items : ItemReader} (hitems : ∀ v, Tidy (items v))
include hitems

theorem tidy_itemsConvert (v : Value) : Tidy (itemsConvert items v) := by
  refine .bind (hitems v) fun converted => ?_
  cases converted with
  | some converted => exact .bind (tidy_release _) fun _ => .pure _
  | none => exact .pure _

theorem tidy_matchArray (element : HostType) (v : Value) : Tidy (matchArray items element v) := by
  refine .bind (tidy_objectBehind? v) fun o => ?_
  split
  · exact .bind (tidy_itemsConvert hitems v) fun _ => .pure _
  · exact tidy_matchObject _ v

theorem tidy_matchType (t : HostType) (v : Value) : Tidy (matchType items t v) := by
  unfold matchType
  split
  · exact .pure _
  · cases t.unwrapNullable with
    | array element =>
      dsimp only
      split
      · exact .pure _
      · exact tidy_matchArray hitems element v
    | named name =>
      dsimp only
      split
      · exact .pure _
      · exact tidy_matchClass t name v
    | _ => exact .pure _

theorem tidy_readAs (c : Conversion) (v : Value) : Tidy (readAs items c v) := by
  cases c with
  | scalar t =>
    unfold readAs
    dsimp only
    split <;> exact .pure _
  | any => exact .bind (tidy_toHost v) fun _ => .pure _
  | handle kind =>
    unfold readAs
    dsimp only
    split
    · exact .pure _
    · split
      · exact .bind (tidy_toHandle v) fun _ => .pure _
      · exact .pure _
  | object t =>
    unfold readAs
    dsimp only
    split
    · exact .pure _
    · exact .bind (tidy_fittingObject? v t) fun _ => .pure _
  | arrayTable element =>
    unfold readAs
    dsimp only
    split
    · exact .pure _
    · refine .bind (hitems v) fun converted => ?_
      cases converted with
      | some converted => exact .bind (tidy_newArray _ _) fun _ => .pure _
      | none => exact .pure _
  | delegate cls =>
    cases v with
    | function f =>
      exact .bind (tidy_toHandle _) fun _ => .bind (tidy_delegateFor cls _) fun _ => .pure _
    | _ => exact .pure _
  | interface cls =>
    cases v with
    | table t =>
      exact .bind (tidy_toHandle _) fun _ => .bind (tidy_interfaceFor cls _) fun _ => .pure _
    | _ => exact .pure _

theorem tidy_convertWith (t : HostType) (v : Value) : Tidy (convertWith items t v) := by
  refine .bind (tidy_matchType hitems t v) fun c => ?_
  cases c with
  | some c => exact tidy_readAs hitems c v
  | none => exact .pure _

end

theorem tidy_noItems (v : Value) : Tidy (noItems v) := .pure _

theorem tidy_asType (t : HostType) (v : Value) : Tidy (asType t v) := by
  unfold asType
  split
  · exact tidy_convertWith (tidy_readItems fun v => tidy_asType _ v) _ _
  · exact tidy_convertWith (tidy_readItems fun v => tidy_asType _ v) _ _
  · exact tidy_convertWith tidy_noItems _ _

theorem tidy_tableToArray (element : HostType) (v : Value) : Tidy (tableToArray element v) :=
  tidy_readItems (tidy_asType element) v

theorem tidy_itemsFor (t : HostType) (v : Value) : Tidy (itemsFor t v) := by
  unfold itemsFor
  cases t.unwrapNullable with
  | array e => exact tidy_tableToArray e v
  | _ => exact tidy_noItems v

theorem tidy_checkType (t : HostType) (v : Value) : Tidy (checkType t v) :=
  tidy_matchType (tidy_itemsFor t) t v

theorem tidy_extract (c : Conversion) (v : Value) : Tidy (c.extract v) := by
  unfold Conversion.extract
  cases c with
  | arrayTable e => exact tidy_readAs (tidy_tableToArray e) _ v
  | _ => exact tidy_readAs tidy_noItems _ v

/-! ## Plans and candidates -/

theorem tidy_matchRun (element : HostType) (arguments : List Value) :
    Tidy (matchRun element arguments) := by
  induction arguments with
  | nil => exact .pure _
  | cons v rest ih =>
    refine .bind (tidy_checkType element v) fun c => ?_
    cases c with
    | some c => exact .bind ih fun _ => .pure _
    | none => exact .pure _

theorem tidy_sourceOf (element : HostType) (rest : List Value) (whole : Bool) :
    Tidy (sourceOf element rest whole) := by
  unfold sourceOf
  split
  · exact .pure _
  · refine .bind (tidy_matchRun element rest) fun cs => ?_
    cases cs <;> exact .pure _

theorem tidy_matchVariadic (element : HostType) (rest : List Value) :
    Tidy (matchVariadic element rest) := by
  cases rest with
  | nil =>
    rw [matchVariadic_nil]
    exact tidy_sourceOf element [] false
  | cons v rest =>
    rw [matchVariadic_cons]
    exact .bind (tidy_itemsConvert (tidy_tableToArray element) v) fun whole =>
      tidy_sourceOf element (v :: rest) whole

theorem tidy_fillMatched (f : Filling) (p : Param) (v : Value) (rest : List Value)
    (c : Option Conversion) : Tidy (fillMatched f p v rest c) := by
  cases c with
  | some c => exact .pure _
  | none =>
    unfold fillMatched
    dsimp only
    split
    · refine .bind (tidy_matchVariadic _ _) fun found => ?_
      cases found <;> exact .pure _
    · exact .bind (.pure none) fun found => by cases found <;> exact .pure _

theorem tidy_fillParam (arguments : List Value) (f : Filling) (p : Param) :
    Tidy (fillParam arguments f p) := by
  by_cases hmode : p.mode = .output
  · rw [fillParam_output hmode]
    exact .pure _
  · cases hrest : arguments.drop f.cursor with
    | nil =>
      rw [fillParam_nil hmode hrest]
      exact .pure _
    | cons v rest =>
      rw [fillParam_cons hmode hrest]
      exact .bind (tidy_checkType p.type v) fun c => tidy_fillMatched f p v rest c

theorem tidy_fillParams (arguments : List Value) (params : List Param) (f : Filling) :
    Tidy (fillParams arguments params f) := by
  induction params generalizing f with
  | nil => exact .pure _
  | cons p rest ih =>
    refine .bind (tidy_fillParam arguments f p) fun g => ?_
    cases g with
    | some g => exact ih g
    | none => exact .pure _

theorem tidy_matchParameters (m : Method) (arguments : List Value) :
    Tidy (matchParameters m arguments) := by
  refine .bind (tidy_fillParams arguments _ _) fun f => ?_
  cases f with
  | none => exact .pure _
  | some f =>
    dsimp only
    split <;> exact .pure _

theorem tidy_extractRun (cs : List Conversion) (arguments : List Value) (position : Nat)
    (done : List HostValue) : Tidy (extractRun cs arguments position done) := by
  induction cs generalizing arguments position done with
  | nil => exact .pure _
  | cons c cs ih =>
    refine .bind (tidy_extract c _) fun item => ?_
    cases item with
    | some item => exact ih _ _ _
    | none => exact .bind (tidy_release _) fun _ => .pure _

theorem tidy_slotExtract (s : ArgumentSlot) (arguments : List Value) :
    Tidy (s.extract arguments) := by
  unfold ArgumentSlot.extract
  cases s.source with
  | single c =>
    refine .bind (tidy_extract c _) fun v => ?_
    cases v <;> exact .pure _
  | run element cs =>
    refine .bind (tidy_extractRun cs _ _ []) fun items => ?_
    cases items with
    | ok items => exact .bind (tidy_newArray _ _) fun _ => .pure _
    | error e => exact .pure _
  | emptyArray element => exact .bind (tidy_newArray _ _) fun _ => .pure _

theorem tidy_extractSlots (arguments : List Value) (slots : List ArgumentSlot)
    (done : List HostValue) : Tidy (extractSlots arguments slots done) := by
  induction slots generalizing done with
  | nil => exact .pure _
  | cons s rest ih =>
    refine .bind (tidy_slotExtract s arguments) fun v => ?_
    cases v with
    | ok v => exact ih _
    | error e => exact .bind (tidy_release _) fun _ => .pure _

theorem tidy_replay (p : Plan) (arguments : List Value) : Tidy (p.replay arguments) := by
  unfold Plan.replay
  split
  · exact .pure _
  · exact tidy_extractSlots _ _ _

theorem tidy_tryCandidate (m : Method) (arguments : List Value) :
    Tidy (tryCandidate m arguments) := by
  refine .bind (tidy_matchParameters m arguments) fun p => ?_
  cases p with
  | none => exact .pure _
  | some p =>
    refine .bind (tidy_replay p arguments) fun converted => ?_
    cases converted <;> exact .pure _

theorem tidy_resolve (candidates : List Method) (arguments : List Value) :
    Tidy (resolve candidates arguments) := by
  induction candidates with
  | nil => exact .pure _
  | cons m rest ih =>
    refine .bind (tidy_tryCandidate m arguments) fun found => ?_
    cases found with
    | some found => exact .pure _
    | none => exact ih

end ScriptBridge
