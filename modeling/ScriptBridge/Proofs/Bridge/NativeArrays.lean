import ScriptBridge.Proofs.Bridge.ArrayItems
import ScriptBridge.Proofs.Dispatch.Replay

/-!
# Arrays of a run

The engine makes arrays in three ways: a type that is indexed by a number, a table that is read as
an array, and the arguments of a variadic parameter. As long as host bodies store nothing in arrays
themselves, every such array keeps its length, and its items stay default values or values that suit
the element type.

1. `World.MadeFor`: the arrays that a conversion made, those among the items of new ones included,
   are arrays of the type that was asked for (`Conforms.hasArray`).
2. `ArrayRun`: the worlds a run comes to after an array was made. `ArrayRun.hasArray` follows the
   array through them.
3. `objectIndex_element` and `objectAssign_element` say what a number does as a key of an array.
4. `ArrayRun.stays_typed` puts all of this together.
-/

namespace ScriptBridge

variable {w w' : World} {a : ObjectRef} {e : HostType} {n : Nat}

/-! ## Arrays that are made -/

/-- An array over `e` of `n` items was made for a value of a type: it is the value, or one of the
items of an array that was made. Objects that were made have at least the index `next`. -/
def World.MadeFor (w : World) (next : Nat) (a : ObjectRef) (e : HostType) (n : Nat) :
    HostType → HostValue → Prop
  | .nullable t, v => MadeFor w next a e n t v
  | .array t, v => ∃ o cell items, v = .object o ∧ next ≤ o.index ∧
      w.objects.get? o.index = some cell ∧ cell.data = .array t items ∧
        ((o = a ∧ t = e ∧ items.size = n) ∨ ∃ x ∈ items, MadeFor w next a e n t x)
  | _, _ => False

theorem World.not_madeFor_null (w : World) {next : Nat} (t : HostType) :
    ¬ w.MadeFor next a e n t .null := by
  induction t with
  | nullable t ih => exact ih
  | array t =>
    rintro ⟨o, cell, items, ho, -⟩
    cases ho
  | _ => exact id

/-- An array that was made for a value that conforms. -/
theorem World.Conforms.hasArray {isNew : ObjectRef → Prop} {next : Nat}
    (hexposed : ∀ o, w.Exposes o → o.index < next) {t : HostType} {v : HostValue}
    (h : w.Conforms isNew t v) (hmade : w.MadeFor next a e n t v) : w.HasArray a e n := by
  induction t generalizing v with
  | nullable t ih =>
    obtain rfl | h := h
    · exact (w.not_madeFor_null t hmade).elim
    · exact ih h hmade
  | array t ih =>
    obtain ⟨o, cell, items, rfl, hnew, hcell, hdata, hmade⟩ := hmade
    obtain hnull | ⟨o', cell', ho, hcell', hname, hfrom⟩ := h
    · cases hnull
    cases ho
    obtain rfl := Option.some.inj (hcell'.symm.trans hcell)
    obtain hold | ⟨-, items', hdata', hitems⟩ := hfrom
    · exact absurd (hexposed o hold) (Nat.not_lt_of_le hnew)
    obtain ⟨-, rfl⟩ := ObjectData.array.inj (hdata'.symm.trans hdata)
    obtain ⟨rfl, rfl, rfl⟩ | ⟨x, hx, hmade⟩ := hmade
    · refine ⟨Store.lt_next _ hcell, fun cell hcell'' => ?_⟩
      obtain rfl := Option.some.inj (hcell''.symm.trans hcell)
      exact ⟨hname, _, hdata, rfl, fun x hx => .inr (hitems x (Array.mem_toList_iff.mpr hx)).suits⟩
    · exact ih (hitems x (Array.mem_toList_iff.mpr hx)) hmade
  | _ => exact hmade.elim

/-- What is new after a conversion is not exposed. -/
theorem World.Makes.exposed_lt {N refs : List Ref} (h : w.Makes N refs w') (hw : w.Sound)
    (o : ObjectRef) (ho : w'.Exposes o) : o.index < w.objects.next :=
  Nat.lt_of_not_le (hw.exposed o ((exposes_iff h.session o).mp ho))

/-- What a slot delivers conforms, whatever its source is. -/
theorem World.Delivers.conforms {isNew : ObjectRef → Prop} {p : Param} {source : ArgumentSource}
    {v : HostValue} (h : w.Delivers isNew p source v) : w.Conforms isNew p.type v := by
  cases source with
  | emptyArray e =>
    obtain ⟨-, htype, o, cls, rfl, hnew, hcell, hname⟩ := h
    rw [htype]
    exact .inr ⟨o, _, rfl, hcell, hname, .inr ⟨hnew, #[], rfl, fun _ hx => nomatch hx⟩⟩
  | _ => exact h

/-- A value read as a type. -/
theorem hasArray_of_asType (hw : w.Sound) {t : HostType} {v : Value} {x : HostValue}
    (hx : asType t v w = (some x, w')) (hmade : w'.MadeFor w.objects.next a e n t x) :
    w'.catalog.IsKeyed ∧ w'.HasArray a e n := by
  have h := asType_converts t v w hw
  rw [hx] at h
  obtain ⟨N, hmakes, hconforms⟩ := h
  exact ⟨hmakes.sound.catalog_keyed, hconforms.hasArray (hmakes.exposed_lt hw) hmade⟩

/-- The arguments that fill a parameter. -/
theorem hasArray_of_slotExtract (hw : w.Sound) {s : ArgumentSlot} {p : Param}
    (hp : p.Accepts s.source) {arguments : List Value} {x : HostValue}
    (hx : s.extract arguments w = (.ok x, w')) (hmade : w'.MadeFor w.objects.next a e n p.type x) :
    w'.catalog.IsKeyed ∧ w'.HasArray a e n := by
  have h := slotExtract_delivers hp arguments hw
  rw [hx] at h
  obtain ⟨N, hmakes, hdelivers⟩ := h
  exact ⟨hmakes.sound.catalog_keyed,
    hdelivers.conforms.hasArray (hmakes.exposed_lt hw) hmade⟩

/-- A type that is indexed by a number. -/
theorem hasArray_of_typeIndex (hw : w.catalog.IsKeyed) {cls : Class}
    (hself : selfType w = .ok cls w) {k : Number} (hkey : w.machine.value 2 = .number k)
    (hn : k.toInt? = some (n : Int)) {r : Nat} (hok : typeIndex w = .ok r w') :
    w'.catalog.IsKeyed ∧ w'.HasArray ⟨w.objects.next⟩ (HostType.parse cls.name) n := by
  have hvalue : valueAt 2 w = (.number k, w) := congrArg (·, w) hkey
  have hsession : readSession w = ((readSession w).1, w) := rfl
  unfold typeIndex at hok
  rw [bind_of_ok hself, bind_of_ok (lift_of_eq hvalue)] at hok
  dsimp only at hok
  rw [bind_of_ok (lift_of_eq hsession)] at hok
  obtain ⟨length, w₁, hlength, hok⟩ := exists_of_bind_ok hok
  obtain ⟨rfl, rfl⟩ : n = length ∧ w = w₁ := by
    unfold arrayLength at hlength
    rw [hn] at hlength
    generalize hfits : Option.filter _ _ = fits at hlength
    cases fits with
    | some i =>
      obtain rfl := Option.some.inj (Option.filter_eq_some_iff.mp hfits).1
      cases hlength
      exact ⟨rfl, rfl⟩
    | none => cases hlength
  let e := HostType.parse cls.name
  let items := Array.replicate n e.defaultValue
  have hnew : (newArray e items w).2.HasArray (newArray e items w).1 e items.size :=
    .of_newArray hw fun v hv => Array.eq_of_mem_replicate hv
  rw [Array.size_replicate] at hnew
  have hkeyed := hw.grows ((orderly_newArray e items).sameStorage w).catalog
  have hpush : Orderly (.arrays ⟨w.objects.next⟩ e n) (do
      pushNewObject ⟨w.objects.next⟩
      return 1 : Host Nat) := .bind (.lift (orderly_pushNewObject _)) fun _ => .pure 1
  have hafter := (hpush _ rfl (newArray e items w).2 ⟨hkeyed, hnew⟩).2
  have hrun : (do
      pushNewObject ⟨w.objects.next⟩
      return 1 : Host Nat) (newArray e items w).2 = .ok r w' := hok
  rw [hrun] at hafter
  exact hafter

/-! ## Runs -/

/-- What an engine runs, from a world to the one it ends in, while host bodies store nothing in
arrays: without the statements that do, the engine does the same. -/
inductive Engine.Spares (d : Nat) (w : World) : World → Prop
  | function (f : FunctionRef) (h : (ofDepth d).run f w = (sparing d).run f w) :
      Spares d w (worldAfter ((ofDepth d).run f w))
  | operations (ops : List Op) (h : (ofDepth d).block ops w = (sparing d).block ops w) :
      Spares d w (worldAfter ((ofDepth d).block ops w))
  | method (m : Method) (cls : Class) (target : Option ObjectRef) (arguments : List HostValue)
      (h : (ofDepth d).invoke m cls target arguments w =
        (sparing d).invoke m cls target arguments w) :
      Spares d w ((ofDepth d).invoke m cls target arguments w).2
  | statements (body : List Stmt)
      (h : (ofDepth d).statements body w = (sparing d).statements body w) :
      Spares d w (worldAfter ((ofDepth d).statements body w))
  | expression (e : Expr) (h : (ofDepth d).eval e w = (sparing d).eval e w) :
      Spares d w (worldAfter ((ofDepth d).eval e w))

theorem Engine.Spares.hasArray {d : Nat} (h : Engine.Spares d w w') (hk : w.catalog.IsKeyed)
    (ha : w.HasArray a e n) : w'.catalog.IsKeyed ∧ w'.HasArray a e n := by
  have hE := sparing_alike (.arrays a e n) d
  have hkept {ε α : Type} {x y : EStateM ε World α} (hx : Orderly (.arrays a e n) x)
      (hy : y w = x w) : (worldAfter (y w)).catalog.IsKeyed ∧
        (worldAfter (y w)).HasArray a e n := hy ▸ (hx _ rfl w ⟨hk, ha⟩).2
  cases h with
  | function f h => exact hkept (@Engine.Alike.run _ _ _ hE false f) h
  | operations ops h => exact hkept (@Engine.Alike.block _ _ _ hE false ops) h
  | method m cls target arguments h =>
    exact h ▸ (@Engine.Alike.invoke _ _ _ hE false m cls target arguments _ rfl w ⟨hk, ha⟩).2
  | statements body h => exact hkept (hE.statements body) h
  | expression e h => exact hkept (@Engine.Alike.eval _ _ _ hE false e) h

/-- The worlds that a run comes to after the engine made an array `a` over `e` of `n` items. The
run may stand anywhere, also inside of calls, bodies and conversions: beside what the engine and the
handlers of proxies run as a whole, it takes small steps that store nothing in arrays, and enters
and leaves frames and bodies. -/
inductive ArrayRun : ObjectRef → HostType → Nat → World → Prop
  /-- A type was indexed by a number. -/
  | indexed {w w' : World} (hkeyed : w.catalog.IsKeyed) {cls : Class}
      (hself : selfType w = .ok cls w) {k : Number} (hkey : w.machine.value 2 = .number k)
      {n : Nat} (hn : k.toInt? = some (n : Int)) {r : Nat} (hok : typeIndex w = .ok r w') :
      ArrayRun ⟨w.objects.next⟩ (.parse cls.name) n w'
  /-- A value was read as a type. -/
  | converted {w w' : World} (hw : w.Sound) {t : HostType} {v : Value} {x : HostValue}
      (hx : asType t v w = (some x, w')) {a : ObjectRef} {e : HostType} {n : Nat}
      (hmade : w'.MadeFor w.objects.next a e n t x) : ArrayRun a e n w'
  /-- Arguments of a call were read for a parameter. -/
  | collected {w w' : World} (hw : w.Sound) {s : ArgumentSlot} {p : Param}
      (hp : p.Accepts s.source) {arguments : List Value} {x : HostValue}
      (hx : s.extract arguments w = (.ok x, w')) {a : ObjectRef} {e : HostType} {n : Nat}
      (hmade : w'.MadeFor w.objects.next a e n p.type x) : ArrayRun a e n w'
  | ran {a : ObjectRef} {e : HostType} {n : Nat} {w w' : World} (h : ArrayRun a e n w) (d : Nat)
      (hspares : Engine.Spares d w w') : ArrayRun a e n w'
  | read {a : ObjectRef} {e : HostType} {n : Nat} {w : World} (h : ArrayRun a e n w) :
      ArrayRun a e n (worldAfter (objectIndex w))
  | assigned {a : ObjectRef} {e : HostType} {n : Nat} {w : World} (h : ArrayRun a e n w) :
      ArrayRun a e n (worldAfter (objectAssign w))
  | step {a : ObjectRef} {e : HostType} {n : Nat} {w w' : World} (h : ArrayRun a e n w)
      (hstep : ∀ b, w.Step b w' b) (hsame : w.SameArrays w') : ArrayRun a e n w'
  | elsewhere {a : ObjectRef} {e : HostType} {n : Nat} {w w' : World} (h : ArrayRun a e n w)
      (hobjects : w'.objects = w.objects) (hcatalog : w.catalog.Grows w'.catalog) :
      ArrayRun a e n w'

/-- The array is followed through the run. -/
theorem ArrayRun.hasArray (h : ArrayRun a e n w) : w.catalog.IsKeyed ∧ w.HasArray a e n := by
  induction h with
  | indexed hkeyed hself hkey hn hok => exact hasArray_of_typeIndex hkeyed hself hkey hn hok
  | converted hw hx hmade => exact hasArray_of_asType hw hx hmade
  | collected hw hp hx hmade => exact hasArray_of_slotExtract hw hp hx hmade
  | ran h d hspares ih => exact hspares.hasArray ih.1 ih.2
  | read h ih => exact ((orderly_objectIndex (R := .arrays _ _ _)) _ rfl _ ih).2
  | assigned h ih => exact (arrays_objectAssign _ _ _ _ rfl _ ih).2
  | step h hstep hsame ih => exact ⟨ih.1.grows hsame.catalog, ih.2.step (hstep []) hsame⟩
  | elsewhere h hobjects hcatalog ih => exact ⟨ih.1.grows hcatalog, ih.2.of_same hobjects hcatalog⟩

/-! ## Elements -/

/-- What a key in the second slot raises that is no position of an array. -/
def World.outOfRange (w : World) (n : Nat) : EStateM.Result Failure World Nat :=
  (throwCause (.invalidTarget ("index " ++ w.keyText ++
    " is out of range for an array of length " ++ toString n)) : Host Nat) w

/-- What follows is skipped once something was done. -/
theorem skip_of_done {done : Host Bool} {x : Host Unit} {rest : Host Nat} {r : Nat}
    (h : done w = (do x; return true : Host Bool) w) :
    (do if ← done then return r else rest : Host Nat) w = (do x; return r : Host Nat) w := by
  cases hx : x w with
  | ok _ w₁ =>
    rw [bind_of_ok hx] at h ⊢
    rw [bind_of_ok h]
    rfl
  | error failure w₁ =>
    rw [bind_of_error hx] at h ⊢
    exact bind_of_error h

section

variable {k : Number} (hkey : w.machine.value 2 = .number k)
include hkey

theorem arrayPosition_outside (hout : ∀ i : Nat, k.toInt? = some (i : Int) → n ≤ i) :
    arrayPosition n w = w.outOfRange n := by
  have hvalue : valueAt 2 w = (.number k, w) := congrArg (·, w) hkey
  have hname : keyName 2 w = (w.keyText, w) := rfl
  unfold arrayPosition
  rw [bind_of_ok (lift_of_eq hvalue)]
  generalize hfits : Option.filter _ _ = fits
  cases fits with
  | none => exact bind_of_ok (lift_of_eq hname)
  | some m =>
    obtain ⟨hm, hrange⟩ := Option.filter_eq_some_iff.mp hfits
    obtain ⟨hnonneg, hlt⟩ := of_decide_eq_true hrange
    have houtside : n ≤ m.toNat := hout m.toNat ((Int.toNat_of_nonneg hnonneg).symm ▸ hm)
    omega

theorem arrayPosition_inside {i : Nat} (hi : k.toInt? = some (i : Int)) (hlt : i < n) :
    arrayPosition n w = .ok i w := by
  have hvalue : valueAt 2 w = (.number k, w) := congrArg (·, w) hkey
  unfold arrayPosition
  rw [bind_of_ok (lift_of_eq hvalue)]
  have hfits : (((Value.number k).toNumber?.bind Number.toInt?).filter fun (m : Int) =>
      decide (0 ≤ m ∧ m < (n : Int))) = some (i : Int) :=
    Option.filter_eq_some_iff.mpr ⟨hi, decide_eq_true ⟨Int.natCast_nonneg i, Int.ofNat_lt.mpr hlt⟩⟩
  rw [hfits]
  rfl

variable {o : HostObject} (hself : w.self? = some (a, o)) {items : Array HostValue}
  (hdata : o.data = .array e items)
include hself hdata

theorem objectIndex_element : objectIndex w = (do
    let i ← arrayPosition items.size
    pushHost (items.getD i .null)
    return 1 : Host Nat) w := by
  have hvalue : valueAt 2 w = (.number k, w) := congrArg (·, w) hkey
  have hitems : o.items? = some items := by
    unfold HostObject.items?
    rw [hdata]
  let x : Host Unit := do
    let i ← arrayPosition items.size
    pushHost (items.getD i .null)
  have helement : pushElement o w = (do x; return true : Host Bool) w := by
    unfold pushElement
    rw [hitems, bind_of_ok (lift_of_eq hvalue), bind_assoc]
  rw [objectIndex_other hself fun name hname => by rw [hkey] at hname; cases hname]
  unfold readOther
  refine (skip_of_done helement).trans ?_
  rw [bind_assoc]

theorem objectAssign_element : objectAssign w = (do
    let i ← arrayPosition items.size
    let v ← convertSlot 3 e
    setObjectData a (.array e (items.setIfInBounds i v))
    discard (items.getD i .null).refs
    return 0 : Host Nat) w := by
  have hvalue : valueAt 2 w = (.number k, w) := congrArg (·, w) hkey
  let x : Host Unit := do
    let i ← arrayPosition items.size
    let v ← convertSlot 3 e
    setObjectData a (.array e (items.setIfInBounds i v))
    discard (items.getD i .null).refs
  have helement : assignElement a o w = (do x; return true : Host Bool) w := by
    unfold assignElement
    rw [hdata, bind_of_ok (lift_of_eq hvalue)]
    simp only [x, bind_assoc]
  rw [objectAssign_other hself fun name hname => by rw [hkey] at hname; cases hname]
  unfold assignOther
  refine (skip_of_done helement).trans ?_
  simp only [x, bind_assoc]

theorem objectIndex_inside {i : Nat} (hi : k.toInt? = some (i : Int)) (hlt : i < items.size) :
    objectIndex w = (do
      pushHost items[i]
      return 1 : Host Nat) w := by
  rw [objectIndex_element hkey hself hdata, bind_of_ok (arrayPosition_inside hkey hi hlt),
    Array.getD_eq_getD_getElem?, Array.getElem?_eq_getElem hlt, Option.getD_some]

theorem access_outside (hout : ∀ i : Nat, k.toInt? = some (i : Int) → items.size ≤ i) :
    objectIndex w = w.outOfRange items.size ∧ objectAssign w = w.outOfRange items.size := by
  have hposition := arrayPosition_outside hkey hout
  rw [objectIndex_element hkey hself hdata, objectAssign_element hkey hself hdata]
  exact ⟨bind_of_error hposition, bind_of_error hposition⟩

end

/-- Writing the third slot to item `i` of an array. What does not convert raises, and nothing was
stored. What converts takes the place of this item and of nothing else, and as long as nothing is
stored the same key reads what the value was converted to. -/
inductive World.WritesElement (w : World) (a : ObjectRef) (e : HostType)
    (items : Array HostValue) (k : Number) (i : Nat) : Prop
  | mismatch {w₁ : World} (hconvert : asType e (w.machine.value 3) w = (none, w₁))
      (hsame : w.SameStorage w₁)
      (hraises : objectAssign w =
        (throwCause (.typeMismatch e.name (w₁.machine.typeAt 3).name) : Host Nat) w₁)
  | written {v : HostValue} {w₁ w₂ : World}
      (hconvert : asType e (w.machine.value 3) w = (some v, w₁)) (hsame : w.SameStorage w₁)
      (hreturns : objectAssign w = .ok 0 w₂) (hcells : w₂.cells = w₁.cells)
      (hobjects : w₂.objects = w₁.objects.modify a.index
        ({ · with data := .array e (items.setIfInBounds i v) }))
      (hread : ∀ w₃ o₃, w₂.SameContents w₃ → w₃.self? = some (a, o₃) →
        w₃.machine.value 2 = .number k → objectIndex w₃ = (do
          pushHost v
          return 1 : Host Nat) w₃)

theorem writesElement {k : Number} (hkey : w.machine.value 2 = .number k) {o : HostObject}
    (hself : w.self? = some (a, o)) {items : Array HostValue} (hdata : o.data = .array e items)
    {i : Nat} (hi : k.toInt? = some (i : Int)) (hlt : i < items.size) :
    w.WritesElement a e items k i := by
  have hassign := objectAssign_element hkey hself hdata
  rw [bind_of_ok (arrayPosition_inside hkey hi hlt)] at hassign
  have hvalue : valueAt 3 w = (w.machine.value 3, w) := rfl
  have hsame := (orderly_asType e (w.machine.value 3)).sameStorage w
  cases hconvert : asType e (w.machine.value 3) w with | mk converted w₁
  rw [hconvert] at hsame
  cases converted with
  | none =>
    have hslot : convertSlot 3 e w =
        (throwCause (.typeMismatch e.name (w₁.machine.typeAt 3).name) : Host HostValue) w₁ := by
      unfold convertSlot
      rw [bind_of_ok (lift_of_eq hvalue), bind_of_ok (lift_of_eq hconvert)]
      rfl
    exact .mismatch hconvert hsame (hassign.trans (bind_of_error hslot))
  | some v =>
    have hslot : convertSlot 3 e w = .ok v w₁ := by
      unfold convertSlot
      rw [bind_of_ok (lift_of_eq hvalue), bind_of_ok (lift_of_eq hconvert)]
      rfl
    rw [bind_of_ok hslot] at hassign
    let data : ObjectData := .array e (items.setIfInBounds i v)
    let refs := (items.getD i .null).refs
    let w₂ : World := { w₁ with
      objects := w₁.objects.modify a.index ({ · with data })
      dropped := w₁.dropped ++ refs.map (⟨·, none⟩) }
    have hreturns : objectAssign w = .ok 0 w₂ := by
      have hset : setObjectData a data w₁ =
          ((), { w₁ with objects := w₁.objects.modify a.index ({ · with data }) }) := rfl
      rw [hassign, bind_of_ok (lift_of_eq hset), bind_of_ok (lift_of_eq (discard_eq _ _ _))]
      rfl
    refine .written hconvert hsame hreturns rfl rfl fun w₃ o₃ hsame₃ hself₃ hkey₃ => ?_
    have hlt₃ : a.index < w₂.objects.next := by
      have hbefore := Store.lt_next _ (get?_of_self? hself)
      exact Nat.lt_of_lt_of_eq (Nat.lt_of_lt_of_le hbefore hsame.objects.next)
        (Store.next_modify _ _ _).symm
    have hcell : (w₁.objects.modify a.index ({ · with data })).get? a.index = some o₃ :=
      hsame₃.objects.get? _ _ hlt₃ (get?_of_self? hself₃)
    rw [Store.get?_modify, if_pos rfl] at hcell
    obtain ⟨cell, -, rfl⟩ := Option.map_eq_some_iff.mp hcell
    have hlt' : i < (items.setIfInBounds i v).size := (Array.size_setIfInBounds ..).symm ▸ hlt
    rw [objectIndex_inside hkey₃ hself₃ rfl hi hlt', Array.getElem_setIfInBounds_self]

/-! ## Typed arrays -/

/-- What is known of an array that the engine made, wherever a run stands. It has the length and the
element type that it was made with, each of its items is the default value or suits that type, and
this is so all the way through whatever the engine runs from here, as long as host bodies store
nothing in arrays. When the array is in the first slot and a number in the second one, reading and
writing raise if the number is no position of the array; otherwise the item at this position is
pushed or replaced. -/
theorem ArrayRun.stays_typed (h : ArrayRun a e n w) :
    w.HasArray a e n ∧
    (∀ (J : Engine) (d : Nat) [DecidablePred fun w : World => w.HasArray a e n] (ops : List Op),
      (Engine.spared (·.HasArray a e n) J d).block ops w = (Engine.sparing d).block ops w) ∧
    ∀ o k, w.self? = some (a, o) → w.machine.value 2 = .number k →
      ∃ items, o.data = .array e items ∧ items.size = n ∧
        ((∀ i : Nat, k.toInt? = some (i : Int) → n ≤ i) →
          objectIndex w = w.outOfRange n ∧ objectAssign w = w.outOfRange n) ∧
        ∀ i : Nat, k.toInt? = some (i : Int) → ∀ hi : i < items.size,
          objectIndex w = (do
            pushHost items[i]
            return 1 : Host Nat) w ∧
          w.WritesElement a e items k i := by
  obtain ⟨hkeyed, ha⟩ := h.hasArray
  refine ⟨ha, fun J d _ ops => ?_, fun o k hself hkey => ?_⟩
  · have hpasses (own : Bool) : ((Conduct.arrays a e n).regime own).Passes (·.HasArray a e n) := by
      rintro _ w rfl ⟨-, hw⟩
      exact hw
    have hE := Engine.spared_alike hpasses J d
    exact (@Engine.Alike.block _ _ _ hE false ops _ rfl w ⟨hkeyed, ha⟩).1
  · obtain ⟨-, items, hdata, rfl, -⟩ := ha.content o (get?_of_self? hself)
    exact ⟨items, hdata, rfl, access_outside hkey hself hdata, fun i hi hlt =>
      ⟨objectIndex_inside hkey hself hdata hi hlt, writesElement hkey hself hdata hi hlt⟩⟩

/-- A session in which a type of integers is asked for an array of two items. -/
def World.indexing : World :=
  (push (.number (Number.ofInt 2)) (pushType { name := (HostType.int .i32).name }
    (World.opened {} {} .build)).2).2

/-- Afterwards a number is assigned to the second item. -/
def World.indexed : World :=
  let w := worldAfter (typeIndex .indexing)
  { w with machine := { w.machine with
      stack := #[w.machine.value 3, .number (Number.ofInt 1), .number (Number.ofInt 8)] } }

theorem World.keyed_indexing : World.indexing.catalog.IsKeyed := by
  have hall : World.indexing.catalog.classes.all (fun p => p.2.name == p.1) = true := by
    decide +kernel
  intro n cls hfind
  exact beq_iff_eq.mp (List.all_eq_true.mp hall _ (Dictionary.mem_of_get? hfind))

theorem arrayRun_indexed : ArrayRun ⟨1⟩ (.int .i32) 2 .indexed := by
  have htarget : (World.indexing.self?.bind fun p => p.2.typeTarget?).map
      (fun cls => HostType.parse cls.name) = some (.int .i32) := by decide +kernel
  have hkey : World.indexing.machine.value 2 = .number (Number.ofInt 2) := by decide +kernel
  have hn : (Number.ofInt 2).toInt? = some ((2 : Nat) : Int) := by decide +kernel
  have hnext : World.indexing.objects.next = 1 := by decide +kernel
  have hsucceeds : (attempt typeIndex .indexing).1.toOption.isSome = true := by decide +kernel
  obtain ⟨cls, htarget, hparse⟩ := Option.map_eq_some_iff.mp htarget
  obtain ⟨⟨ref, o⟩, hself, htarget⟩ := Option.bind_eq_some_iff.mp htarget
  have hmade : ArrayRun ⟨1⟩ (.int .i32) 2 (worldAfter (typeIndex .indexing)) := by
    cases hok : typeIndex World.indexing with
    | ok r w =>
      rw [← hnext, ← hparse]
      exact .indexed World.keyed_indexing (selfType_eq hself htarget) hkey hn hok
    | error failure w =>
      rw [attempt_of_error hok] at hsucceeds
      cases hsucceeds
  have hstack {w : World} (h : ArrayRun ⟨1⟩ (.int .i32) 2 w) (stack : Array Value) :
      ArrayRun ⟨1⟩ (.int .i32) 2 { w with machine := { w.machine with stack } } :=
    .elsewhere h rfl (.refl _)
  exact hstack hmade _

/-- The second item is replaced by the integer that the number stands for. -/
theorem stays_typed_indexed :
    World.indexed.HasArray ⟨1⟩ (.int .i32) 2 ∧ ∃ items w,
      World.indexed.WritesElement ⟨1⟩ (.int .i32) items (Number.ofInt 1) 1 ∧
        objectAssign World.indexed = .ok 0 w := by
  have hbehind : World.indexed.self?.map (·.1) = some ⟨1⟩ := by decide +kernel
  have hkey : World.indexed.machine.value 2 = .number (Number.ofInt 1) := by decide +kernel
  have hi : (Number.ofInt 1).toInt? = some ((1 : Nat) : Int) := by decide +kernel
  have hconverts : (asType (.int .i32) (World.indexed.machine.value 3) .indexed).1.isSome =
      true := by decide +kernel
  obtain ⟨⟨ref, o⟩, hself, rfl⟩ := Option.map_eq_some_iff.mp hbehind
  obtain ⟨harray, -, haccess⟩ := arrayRun_indexed.stays_typed
  obtain ⟨items, -, hsize, -, hinside⟩ := haccess o _ hself hkey
  have hwrites := (hinside 1 hi (by omega)).2
  refine ⟨harray, items, ?_⟩
  cases hwrites with
  | mismatch hconvert =>
    rw [hconvert] at hconverts
    cases hconverts
  | written hconvert hsame hreturns hcells hobjects hread =>
    exact ⟨_, .written hconvert hsame hreturns hcells hobjects hread, hreturns⟩

end ScriptBridge
