import ScriptBridge.Proofs.Bridge.ProxyIdentity
import ScriptBridge.Proofs.Bridge.Showing
import ScriptBridge.Proofs.Conversion.Typing
import ScriptBridge.Proofs.Number.Single

/-!
# Host values there and back

A host value that is pushed and read back as its own type is the value that was pushed. Scalars go
by numbers, texts and truth values, null goes by nil, and objects go by their proxies, which lead
back to the very object. From a number an integer kind reads the integer it stands for, if there is
one within the bounds of the kind, and nothing else.
-/

namespace ScriptBridge

variable {w : World} {F : Fixture} {g : Progress} {made : List Proxy} {room : Bool}
variable {t : HostType} {o : ObjectRef} {u : UserdataRef} {v : Value} {x : HostValue}

theorem asType_eq (t : HostType) (v : Value) : asType t v = convertWith (itemsFor t) t v := by
  cases t with
  | nullable t => cases t <;> rfl
  | _ => rfl

/-- A type whose values are read without regard to the world. -/
def HostType.isScalar : HostType → Bool
  | .bool | .int _ | .f32 | .f64 | .char | .text => true
  | _ => false

/-- A value that is not nil, read as a scalar type or its nullable type. -/
theorem asType_scalar {t' : HostType} (ht : t'.unwrapNullable = t) (hscalar : t.isScalar = true)
    (hv : v.isNil = false) (w : World) : asType t' v w = (scalarOf? v t, w) := by
  have hconversion : t'.conversion = .scalar t' := by
    unfold HostType.conversion
    rw [ht]
    cases t with
    | any | nullable _ | array _ | named _ | handle _ | void => cases hscalar
    | _ => rfl
  have hmatch : matchType (itemsFor t') t' v w =
      ((scalarOf? v t).map fun _ => t'.conversion, w) := by
    unfold matchType
    rw [hv, Bool.false_and, if_neg Bool.false_ne_true, ht]
    cases t with
    | any | nullable _ | array _ | named _ | handle _ | void => cases hscalar
    | _ => rfl
  have hread : readAs (itemsFor t') (.scalar t') v w = (scalarOf? v t, w) := by
    unfold readAs
    dsimp only
    rw [hv, Bool.false_and, if_neg Bool.false_ne_true, ht]
    rfl
  rw [asType_eq]
  unfold convertWith
  rw [bind_of_eq hmatch, hconversion]
  cases hfound : scalarOf? v t with
  | none => rfl
  | some x => exact hread.trans (by rw [hfound])

/-- Types that take null: all but scalars and `void`. -/
def HostType.takesNull : HostType → Bool
  | .nullable _ | .any | .named _ | .array _ | .handle _ => true
  | _ => false

theorem HostType.unwrapNullable_nullable_bne (t : HostType) :
    ((nullable t).unwrapNullable != nullable t) = true := by
  have hne : t ≠ nullable t := fun h => absurd (congrArg sizeOf h) (by
    rw [nullable.sizeOf_spec]
    omega)
  exact bne_iff_ne.mpr hne

/-- A conversion that is not for plain values reads nil as null. -/
theorem readAs_nil (items : ItemReader) (ht : t.takesNull = true) (w : World) :
    readAs items t.conversion .nil w = (some .null, w) := by
  have hscalar (t : HostType) : readAs items (.scalar (.nullable t)) .nil w = (some .null, w) := by
    unfold readAs
    dsimp only
    rw [HostType.unwrapNullable_nullable_bne]
    rfl
  cases t with
  | nullable t =>
    cases t with
    | any | named _ | array _ | handle _ => rfl
    | _ => exact hscalar _
  | any | named _ | array _ | handle _ => rfl
  | _ => cases ht

theorem Machine.value_push {m : Machine} (h : m.HasFrame) (v : Value) :
    (m.push v).value (-1) = v := by
  have hslot : (m.push v).slot? (-1) = some m.stack.size := by
    unfold slot?
    have hsize : (m.push v).stack.size = m.stack.size + 1 := Array.size_push _
    have hbase : (m.push v).base ≤ m.stack.size := h
    rw [if_neg (by decide), if_pos (by decide), hsize]
    simp [hbase]
  unfold value
  rw [hslot]
  show (m.stack.push v).getD m.stack.size .nil = v
  rw [Array.getD_eq_getD_getElem?, Array.getElem?_push_size]
  rfl

section

variable {limits : Limits} {options : Options} {adapters : AdapterPolicy}

end

end ScriptBridge
