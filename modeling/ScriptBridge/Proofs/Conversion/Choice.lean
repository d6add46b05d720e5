import ScriptBridge.Proofs.Bridge.TypedRoundTrip
import ScriptBridge.Proofs.Conversion.Reading
import ScriptBridge.Proofs.Vm.Steady

/-!
# What matching chooses, and what a conversion reads

Matching and reading go through the types and the kinds of values separately. Both are told here
from the world as it is: `World.pick` is the conversion that matching chooses, and `World.fulfils`
says whether a conversion reads a value. A table that is read item by item is the one case that
depends on more than the world at hand; `World.list?` says when it is that case.

What was picked is fulfilled, but for a function that is to become a delegate of a class without a
call signature.
-/

namespace ScriptBridge

namespace World

variable (w : World)

/-- The element type by which the items of a table are read, if it is read item by item. -/
def list? (t : HostType) (v : Value) : Option HostType :=
  match t.unwrapNullable, v with
  | .array e, .table _ => if (w.objectBehind? v).isNone then some e else none
  | _, _ => none

/-- The conversion of an object that fits. -/
def pickObject (t : HostType) (v : Value) : Option Conversion :=
  (w.fittingObject? v t).map fun _ => t.conversion

/-- The conversion of a value to a class. -/
def pickClass (t : HostType) (name : String) (v : Value) : Option Conversion :=
  match w.catalog.find? name, v with
  | some cls, .function _ =>
    if cls.kind == .delegate then some (.delegate cls) else w.pickObject t v
  | some cls, .table _ =>
    if cls.kind == .interface then
      some (if (w.fittingObject? v t).isSome then t.conversion else .interface cls)
    else w.pickObject t v
  | _, _ => w.pickObject t v

/-- The conversion of a value to a type, if they match and no table is read item by item. -/
def pick (t : HostType) (v : Value) : Option Conversion :=
  if v.isNil && t.unwrapNullable != t then some t.conversion
  else
    match t.unwrapNullable with
    | .any => some .any
    | .void => none
    | .handle kind =>
      if v.isNil || HandleKind.ofValue? v == some kind then some (.handle kind) else none
    | .array e => if v.isNil then some t.conversion else w.pickObject (.array e) v
    | .named name => if v.isNil then some t.conversion else w.pickClass t name v
    | scalar => (scalarOf? v scalar).map fun _ => t.conversion

/-- Whether adapters are made. -/
def builds : Bool := (readSession w).1.adapters != .refuse

/-- Whether a conversion reads a value, if no table is read item by item. -/
def fulfils (c : Conversion) (v : Value) : Bool :=
  match c with
  | .scalar t => v.isNil && t.unwrapNullable != t || (scalarOf? v t.unwrapNullable).isSome
  | .any => true
  | .handle kind => v.isNil || HandleKind.ofValue? v == some kind
  | .object t => v.isNil || (w.fittingObject? v t).isSome
  | .arrayTable _ => v.isNil
  | .delegate cls => v.isNil || v.type == .function && w.builds && cls.invokeMethod?.isSome
  | .interface cls => v.isNil || v.type == .table && w.builds && cls.kind == .interface

end World

/-! ## Sessions and handles -/

theorem session_createRef (v : Value) (w : World) :
    (createRef v w).2.machine.session = w.machine.session := by
  cases hv : v.isNil with
  | true => rw [createRef_nil hv]
  | false =>
    have htake : (takeReference w).2.machine.session = w.machine.session := by
      by_cases hfree : 0 < Reference.head (w.fieldOf w.machine.registry Reference.freeField)
      · rw [takeReference_free rfl hfree, rawSetField_eq]
        rfl
      · rw [takeReference_new (Int.not_lt.mp hfree)]
    cases hr : takeReference w with | mk r w₁
    obtain ⟨w₂, hwrite, hmachine⟩ := rawSetInt_world w₁.machine.registry r v w₁
    rw [hr] at htake
    rw [createRef_of_take hv hr hwrite, hmachine]
    exact htake

theorem session_toHandle (v : Value) (w : World) :
    (toHandle v w).2.machine.session = w.machine.session := by
  let w₁ : World := { w with machine := (w.machine.push v).popValue.2 }
  have hcreate := session_createRef (w.machine.push v).popValue.1 w₁
  exact hcreate.trans (Machine.popValue_session (w.machine.push v))

theorem builds_toHandle (v : Value) (w : World) : (toHandle v w).2.builds = w.builds := by
  have hread : (readSession (toHandle v w).2).1 = (readSession w).1 :=
    congrArg (Option.getD · default) (session_toHandle v w)
  unfold World.builds
  rw [hread]

/-! ## Matching -/

namespace World

variable {w : World} {t e : HostType} {v : Value}

theorem list?_eq_some (h : w.list? t v = some e) :
    t.unwrapNullable = .array e ∧ (∃ r, v = .table r) ∧ w.objectBehind? v = none := by
  unfold list? at h
  split at h
  · rename_i ht
    split at h
    · rename_i hnone
      cases h
      exact ⟨ht, ⟨_, rfl⟩, Option.isNone_iff_eq_none.mp hnone⟩
    · cases h
  · cases h

end World

section

variable {items : ItemReader} {t e : HostType} {v : Value} {w : World}

theorem matchObject_eq (t : HostType) (v : Value) (w : World) :
    matchObject t v w = (w.pickObject t v, w) := rfl

theorem matchClass_eq (t : HostType) (name : String) (v : Value) (w : World) :
    matchClass t name v w = (w.pickClass t name v, w) := by
  have hread : readSession w = ((readSession w).1, w) := rfl
  have hcatalog : (readSession w).1.catalog = w.catalog := rfl
  unfold matchClass World.pickClass
  rw [bind_of_eq hread, hcatalog]
  cases w.catalog.find? name with
  | none => rfl
  | some cls =>
    cases v with
    | function f =>
      dsimp only
      split <;> rfl
    | table t =>
      dsimp only
      split <;> rfl
    | _ => rfl

/-- Matching a table item by item. -/
theorem matchType_list (h : w.list? t v = some e) : matchType items t v w =
    (if (itemsConvert items v w).1 then some (.arrayTable e) else none,
      (itemsConvert items v w).2) := by
  obtain ⟨ht, ⟨r, rfl⟩, hnone⟩ := World.list?_eq_some h
  have hbehind : objectBehind? (.table r) w = (none, w) := congrArg (·, w) hnone
  have hnil : (Value.table r).isNil = false := rfl
  have htable : ((Value.table r).type == .table && (none : Option ObjectRef).isNone) = true := rfl
  unfold matchType
  rw [hnil, Bool.false_and, if_neg Bool.false_ne_true, ht]
  show matchArray items e (.table r) w = _
  unfold matchArray
  rw [bind_of_eq hbehind, if_pos htable]
  rfl

/-- Matching without items only reads the world. -/
theorem matchType_eq (h : w.list? t v = none) : matchType items t v w = (w.pick t v, w) := by
  unfold matchType World.pick
  split
  · rfl
  · unfold World.list? at h
    cases ht : t.unwrapNullable with
    | array e =>
      rw [ht] at h
      dsimp only
      cases hnil : v.isNil with
      | true => rfl
      | false =>
        have hcond : (v.type == .table && (w.objectBehind? v).isNone) = false := by
          cases v with
          | table r =>
            dsimp only at h
            split at h
            · cases h
            · rename_i hsome
              rw [Bool.eq_false_iff.mpr hsome, Bool.and_false]
          | _ => rfl
        have hbehind : objectBehind? v w = (w.objectBehind? v, w) := rfl
        rw [if_neg Bool.false_ne_true, if_neg Bool.false_ne_true]
        unfold matchArray
        rw [bind_of_eq hbehind, if_neg (Bool.eq_false_iff.mp hcond), matchObject_eq]
    | named name =>
      dsimp only
      split
      · rfl
      · exact matchClass_eq t name v w
    | handle kind =>
      dsimp only
      split <;> rfl
    | _ => rfl

/-! ## Reading -/

theorem toHost_isSome (v : Value) (w : World) :
    ((do return some (← toHost v) : Action (Option HostValue)) w).1.isSome = true := rfl

theorem delegateFor_isSome (cls : Class) (function : HandleRef) (w : World) :
    (adapted (delegateFor cls function w).1).isSome = (w.builds && cls.invokeMethod?.isSome) := by
  have hread : readSession w = ((readSession w).1, w) := rfl
  unfold delegateFor World.builds
  rw [bind_of_eq hread]
  cases hpolicy : (readSession w).1.adapters with
  | refuse => rfl
  | build =>
    show (adapted (makeDelegate cls function w).1).isSome = cls.invokeMethod?.isSome
    unfold makeDelegate
    cases cls.invokeMethod? <;> rfl

theorem interfaceFor_isSome (cls : Class) (table : HandleRef) (w : World) :
    (adapted (interfaceFor cls table w).1).isSome = (w.builds && cls.kind == .interface) := by
  have hread : readSession w = ((readSession w).1, w) := rfl
  unfold interfaceFor World.builds
  rw [bind_of_eq hread]
  cases hpolicy : (readSession w).1.adapters with
  | refuse => rfl
  | build =>
    show (adapted (makeInterface cls table w).1).isSome = (cls.kind == .interface)
    unfold makeInterface
    cases hkind : cls.kind == .interface with
    | true =>
      rw [if_pos rfl]
      rfl
    | false =>
      rw [if_neg Bool.false_ne_true]
      rfl

/-- Reading without items. -/
theorem readAs_isSome {c : Conversion} (h : ∀ e, c = .arrayTable e → v.isNil = true) (w : World) :
    (readAs items c v w).1.isSome = w.fulfils c v := by
  have hnull (hv : v.isNil = true) (hc : ∀ t, c ≠ .scalar t) (hany : c ≠ .any) :
      (readAs items c v w).1.isSome = true := by
    cases c with
    | scalar t => exact absurd rfl (hc t)
    | any => exact absurd rfl hany
    | _ =>
      unfold readAs
      dsimp only
      rw [if_pos hv]
      rfl
  cases c with
  | scalar t =>
    unfold readAs World.fulfils
    dsimp only
    cases v.isNil && t.unwrapNullable != t with
    | true => rfl
    | false => rfl
  | any => exact toHost_isSome v w
  | handle kind =>
    unfold World.fulfils
    cases hv : v.isNil with
    | true => exact hnull hv nofun nofun
    | false =>
      unfold readAs
      dsimp only
      rw [hv, if_neg Bool.false_ne_true, Bool.false_or]
      cases HandleKind.ofValue? v == some kind with
      | true => rfl
      | false => rfl
  | object t =>
    unfold World.fulfils
    cases hv : v.isNil with
    | true => exact hnull hv nofun nofun
    | false =>
      unfold readAs
      dsimp only
      rw [hv, if_neg Bool.false_ne_true, Bool.false_or]
      show ((w.fittingObject? v t).map HostValue.object).isSome = _
      rw [Option.isSome_map]
  | arrayTable e =>
    have hv := h e rfl
    unfold World.fulfils
    dsimp only
    rw [hv]
    exact hnull hv nofun nofun
  | delegate cls =>
    unfold World.fulfils
    cases v with
    | nil => exact hnull rfl nofun nofun
    | function f =>
      -- The handle is made first; it keeps the session, and with it the policy for adapters.
      show (adapted (delegateFor cls (toHandle (.function f) w).1
        (toHandle (.function f) w).2).1).isSome = (w.builds && cls.invokeMethod?.isSome)
      rw [delegateFor_isSome, builds_toHandle]
    | _ => rfl
  | interface cls =>
    unfold World.fulfils
    cases v with
    | nil => exact hnull rfl nofun nofun
    | table r =>
      show (adapted (interfaceFor cls (toHandle (.table r) w).1
        (toHandle (.table r) w).2).1).isSome = (w.builds && cls.kind == .interface)
      rw [interfaceFor_isSome, builds_toHandle]
    | _ => rfl

end

/-! ## What was picked is fulfilled -/

theorem HostType.conversion_ne_arrayTable (t e : HostType) : t.conversion ≠ .arrayTable e := by
  unfold conversion
  cases t.unwrapNullable <;> exact nofun

/-- A function that is to become a delegate of a class without a call signature. -/
def World.Unsigned (w : World) (t : HostType) (v : Value) : Prop :=
  ∃ f name cls, v = .function f ∧ t.unwrapNullable = .named name ∧
    w.catalog.find? name = some cls ∧ cls.kind = .delegate ∧ cls.invokeMethod? = none

namespace World

variable {w : World} {t : HostType} {v : Value} {c : Conversion}

theorem pick_ne_arrayTable (h : w.pick t v = some c) (e : HostType) : c ≠ .arrayTable e := by
  have hconversion {t : HostType} (h : some t.conversion = some c) : c ≠ .arrayTable e := by
    cases h
    exact t.conversion_ne_arrayTable e
  have hmap {α : Type} {found : Option α} {t : HostType}
      (h : (found.map fun _ => t.conversion) = some c) : c ≠ .arrayTable e := by
    obtain ⟨_, -, h⟩ := Option.map_eq_some_iff.mp h
    exact hconversion (congrArg some h)
  have hclass {name : String} (h : w.pickClass t name v = some c) : c ≠ .arrayTable e := by
    unfold pickClass at h
    split at h
    · split at h
      · cases h
        exact nofun
      · exact hmap h
    · split at h
      · split at h
        · exact hconversion h
        · cases h
          exact nofun
      · exact hmap h
    · exact hmap h
  -- The branches of `pick`, in its order.
  unfold pick at h
  split at h
  · exact hconversion h
  · split at h
    · cases h
      exact nofun
    · cases h
    · split at h
      · cases h
        exact nofun
      · cases h
    · split at h
      · exact hconversion h
      · exact hmap h
    · split at h
      · exact hconversion h
      · exact hclass h
    · exact hmap h

/-- Nil matches the types that take null. -/
theorem pick_nil (w : World) (t : HostType) :
    w.pick t .nil = if t.takesNull then some t.conversion else none := by
  unfold pick
  by_cases hwrapped : (t.unwrapNullable != t) = true
  · rw [hwrapped]
    cases t with
    | nullable t => rfl
    | _ => exact absurd rfl (bne_iff_ne.mp hwrapped)
  · rw [Bool.eq_false_iff.mpr hwrapped, Bool.and_false, if_neg Bool.false_ne_true]
    cases t with
    | nullable t => exact absurd t.unwrapNullable_nullable_bne hwrapped
    | _ => rfl

/-- Null is read by the conversion of every type that takes it. -/
theorem fulfils_null (ht : t.takesNull = true) : w.fulfils t.conversion .nil = true := by
  have hread : (readAs noItems t.conversion .nil w).1.isSome = w.fulfils t.conversion .nil :=
    readAs_isSome (fun e he => absurd he (t.conversion_ne_arrayTable e)) w
  rw [← hread, readAs_nil noItems ht]
  rfl

theorem fittingObject?_unwrapNullable (h : t.unwrapNullable.unwrapNullable = t.unwrapNullable) :
    w.fittingObject? v t.unwrapNullable = w.fittingObject? v t := by
  have hsame (c : Catalog) (cell : HostObject) : c.fits cell t.unwrapNullable = c.fits cell t := by
    unfold Catalog.fits
    rw [h]
  unfold fittingObject?
  simp only [hsame]

/-- An object that fits is read by the conversion for it. -/
theorem fulfils_of_pickObject (h : w.pickObject t v = some c) : w.fulfils c v = true := by
  obtain ⟨o, ho, rfl⟩ := Option.map_eq_some_iff.mp h
  obtain ⟨-, cell, -, hfits⟩ := fittingObject?_eq_some ho
  have hobject (h : t.unwrapNullable.unwrapNullable = t.unwrapNullable) :
      w.fulfils (.object t.unwrapNullable) v = true := by
    show (v.isNil || (w.fittingObject? v t.unwrapNullable).isSome) = true
    rw [fittingObject?_unwrapNullable h, ho]
    exact Bool.or_true _
  unfold Catalog.fits at hfits
  unfold HostType.conversion
  cases ht : t.unwrapNullable with
  | any => rfl
  | named n =>
    rw [ht] at hobject
    exact hobject rfl
  | array e =>
    rw [ht] at hobject
    exact hobject rfl
  | _ =>
    rw [ht] at hfits
    cases hfits

theorem fulfils_of_pickClass {name : String} (hbuilds : w.builds = true)
    (ht : t.unwrapNullable = .named name) (h : w.pickClass t name v = some c) :
    w.fulfils c v = true ∨ w.Unsigned t v := by
  unfold pickClass at h
  split at h
  · rename_i cls f hfind
    split at h
    · rename_i hkind
      cases h
      -- A delegate is chosen by its kind alone, and made by its signature.
      cases hinvoke : cls.invokeMethod? with
      | none => exact .inr ⟨f, name, cls, rfl, ht, hfind, beq_iff_eq.mp hkind, hinvoke⟩
      | some signature =>
        refine .inl ?_
        unfold fulfils
        dsimp only
        rw [hbuilds, hinvoke]
        rfl
    · exact .inl (fulfils_of_pickObject h)
  · rename_i cls r hfind
    split at h
    · rename_i hkind
      split at h
      · rename_i hfits
        obtain ⟨o, ho⟩ := Option.isSome_iff_exists.mp hfits
        refine .inl (fulfils_of_pickObject (t := t) ?_)
        unfold pickObject
        rw [ho]
        exact h
      · cases h
        refine .inl ?_
        unfold fulfils
        dsimp only
        rw [hbuilds, hkind]
        rfl
    · exact .inl (fulfils_of_pickObject h)
  · exact .inl (fulfils_of_pickObject h)

/-- A conversion that was picked reads the value, but for a delegate without a call signature. -/
theorem fulfils_of_pick (hbuilds : w.builds = true) (h : w.pick t v = some c) :
    w.fulfils c v = true ∨ w.Unsigned t v := by
  cases hnil : v.isNil with
  | true =>
    obtain rfl : v = .nil := beq_iff_eq.mp hnil
    rw [pick_nil] at h
    split at h
    · rename_i htakes
      cases h
      exact .inl (fulfils_null htakes)
    · cases h
  | false =>
    unfold pick at h
    rw [hnil, Bool.false_and, if_neg Bool.false_ne_true] at h
    cases ht : t.unwrapNullable with
    | any =>
      rw [ht] at h
      cases h
      exact .inl rfl
    | void =>
      rw [ht] at h
      cases h
    | handle kind =>
      rw [ht] at h
      dsimp only at h
      split at h
      · rename_i hkind
        cases h
        refine .inl ?_
        unfold fulfils
        dsimp only
        rw [hnil]
        exact hkind
      · cases h
    | array e =>
      rw [ht] at h
      exact .inl (fulfils_of_pickObject h)
    | named name =>
      rw [ht] at h
      exact fulfils_of_pickClass hbuilds ht h
    | _ =>
      -- Scalars: matching and reading ask the same of the value.
      rw [ht] at h
      obtain ⟨x, hx, rfl⟩ := Option.map_eq_some_iff.mp h
      refine .inl ?_
      unfold HostType.conversion fulfils
      rw [ht]
      dsimp only
      rw [ht, hx]
      exact Bool.or_true _

/-- A delegate without a call signature is not made. -/
theorem fulfils_of_unsigned (h : w.Unsigned t v) (hpick : w.pick t v = some c) :
    w.fulfils c v = false := by
  obtain ⟨f, name, cls, rfl, ht, hfind, hkind, hnone⟩ := h
  have hclass : w.pick t (.function f) = w.pickClass t name (.function f) := by
    unfold pick
    rw [ht]
    rfl
  have hdelegate : w.pickClass t name (.function f) = some (.delegate cls) := by
    unfold pickClass
    rw [hfind]
    exact if_pos (beq_iff_eq.mpr hkind)
  obtain rfl := Option.some.inj ((hdelegate.symm.trans hclass.symm).trans hpick)
  unfold fulfils
  dsimp only
  rw [hnone]
  exact Bool.and_false _

end World

end ScriptBridge
