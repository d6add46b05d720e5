import ScriptBridge.Proofs.Conversion.Reading
import ScriptBridge.Proofs.Course.Host

/-!
# Values that suit a type

A value that is stored for a type has to suit it for as long as it is stored. Unlike
`World.Conforms`, which follows a value while it is on its way, `World.Suits` does not ask where an
object comes from: it asks for an object that is there and whose class the type accepts.

1. `Conforms.suits`: what conforms to a type suits it.
2. `Suits.later`: a value suits its type as long as the object it stands for is there, since objects
   keep their classes and classes of arrays change nothing about which classes a type accepts.
3. `yields_asType`: in any world in which classes stand under their own names, what a value converts
   to suits the type when the conversion is done.
-/

namespace ScriptBridge

/-- A host value suits a type. Scalars are of exactly their variant; null suits `any`, handles,
classes, arrays and nullable types. -/
def World.Suits (w : World) : HostType → HostValue → Prop
  | .any, _ => True
  | .bool, v => ∃ b, v = .bool b
  | .int k, v => ∃ n, v = .int k n ∧ k.contains n = true
  | .f32, v => ∃ n, v = .f32 n
  | .f64, v => ∃ n, v = .f64 n
  | .char, v => ∃ c, v = .char c
  | .text, v => ∃ s, v = .text s
  | .nullable t, v => v = .null ∨ Suits w t v
  | .array e, v => v = .null ∨ ∃ o cell, v = .object o ∧ w.objects.get? o.index = some cell ∧
      cell.cls.name = (HostType.array e).name
  | .named n, v => v = .null ∨ ∃ o cell, v = .object o ∧ w.objects.get? o.index = some cell ∧
      w.catalog.isAssignable n cell.cls = true
  | .handle k, v => v = .null ∨ ∃ h, v = .handle k h
  | .void, _ => False

namespace World

variable {w w' : World} {t : HostType} {v : HostValue}

theorem Conforms.suits {isNew : ObjectRef → Prop} (h : w.Conforms isNew t v) : w.Suits t v := by
  induction t generalizing v with
  | nullable t ih => exact h.imp_right ih
  | array e ih =>
    refine h.imp_right ?_
    rintro ⟨o, cell, rfl, hcell, hname, -⟩
    exact ⟨o, cell, rfl, hcell, hname⟩
  | named n =>
    refine h.imp_right ?_
    rintro ⟨o, cell, rfl, hcell, hfits, -⟩
    exact ⟨o, cell, rfl, hcell, hfits⟩
  | _ => exact h

theorem Suits.of_unwrap (h : w.Suits t.unwrapNullable v) : w.Suits t v := by
  cases t with
  | nullable t => exact .inr h
  | _ => exact h

/-- Values go on suiting their type as long as the object they stand for is there. -/
theorem Suits.later (hcatalog : w.catalog.Grows w'.catalog)
    (hobjects : ∀ o cell, v = .object o → w.objects.get? o.index = some cell →
      ∃ cell', w'.objects.get? o.index = some cell' ∧ cell'.cls = cell.cls)
    (h : w.Suits t v) : w'.Suits t v := by
  induction t with
  | nullable t ih => exact h.imp_right ih
  | array e ih =>
    refine h.imp_right ?_
    rintro ⟨o, cell, hv, hcell, hname⟩
    obtain ⟨cell', hcell', hcls⟩ := hobjects o cell hv hcell
    exact ⟨o, cell', hv, hcell', hcls ▸ hname⟩
  | named n =>
    refine h.imp_right ?_
    rintro ⟨o, cell, hv, hcell, hfits⟩
    obtain ⟨cell', hcell', hcls⟩ := hobjects o cell hv hcell
    refine ⟨o, cell', hv, hcell', ?_⟩
    rw [hcls, Catalog.isAssignable_grows hcatalog, hfits]
  | _ => exact h

/-- An object whose class is that of a type. -/
theorem Suits.of_newObject {cls : Class} (ht : t.unwrapNullable = .named cls.name) (w : World)
    (data : ObjectData) : (newObject cls data w).2.Suits t (.object (newObject cls data w).1) := by
  have hconforms : (newObject cls data w).2.Conforms (fun _ => True) t
      (.object (newObject cls data w).1) := conforms_newObject ht w data trivial
  exact hconforms.suits

end World

/-! ## Storing nothing -/

/-- To store nothing, and to add only classes of arrays to the catalog. -/
def Regime.stored : Regime where
  Has Q := ∃ w : World, Q = w.SameStorage
  step := by
    rintro _ w w' ⟨w₀, rfl⟩ hw - hsame
    exact hw.trans hsame
  pushed := by
    rintro _ w v ⟨w₀, rfl⟩ hw
    refine ⟨_, ⟨w₀, rfl⟩, hw.trans (.of_same rfl rfl rfl), fun w' hw' => hw'.trans ?_⟩
    rw [Machine.popValue_eq]
    exact .of_same rfl rfl rfl

section

variable {α ε : Type} {w : World}

/-- What is orderly under every regime stores nothing. -/
theorem Alike.sameStorage {x : Action α} (h : Orderly .stored x) (w : World) :
    w.SameStorage (x w).2 :=
  Action.keeps_iff.mp (h _ ⟨w, rfl⟩) w (.refl w)

theorem Alike.sameStorageAfter {x : EStateM ε World α} (h : Orderly .stored x) (w : World) :
    w.SameStorage (worldAfter (x w)) :=
  (h _ ⟨w, rfl⟩ w (.refl w)).2

end

/-! ## Choosing a conversion -/

/-- From worlds whose classes stand under their own names an action chooses only conversions that
read a type. -/
def Picks (x : Action (Option Conversion)) (t : HostType) : Prop :=
  ∀ w : World, w.catalog.IsKeyed → ∀ c, (x w).1 = some c → c.Reads t

namespace Picks

variable {t : HostType} {α : Type}

protected theorem none : Picks (pure none) t := fun _ _ _ h => nomatch h

protected theorem some {c : Conversion} (h : c.Reads t) : Picks (pure (some c)) t :=
  fun _ _ _ hc => Option.some.inj hc ▸ h

protected theorem map (test : Option α) : Picks (pure (test.map fun _ => t.conversion)) t := by
  cases test with
  | none => exact .none
  | some a => exact .some t.conversion_reads

protected theorem bind {x : Action α} {f : α → Action (Option Conversion)}
    (hx : Orderly .stored x) (hf : ∀ a, Picks (f a) t) : Picks (x >>= f) t :=
  fun w hw => hf _ _ (hw.grows (hx.sameStorage w).catalog)

protected theorem session {f : Session → Action (Option Conversion)}
    (hf : ∀ s : Session, s.catalog.IsKeyed → Picks (f s) t) : Picks (readSession >>= f) t :=
  fun w hw => hf _ hw w hw

end Picks

theorem picks_matchObject (t : HostType) (v : Value) : Picks (matchObject t v) t :=
  .bind (orderly_fittingObject? v t) fun found => .map found

theorem picks_matchClass {t : HostType} {n : String} (ht : t.unwrapNullable = .named n)
    (v : Value) : Picks (matchClass t n v) t := by
  refine .session fun s hs => ?_
  have hname {cls : Class} (hfind : s.catalog.find? n = some cls) :
      t.unwrapNullable = .named cls.name := by
    rw [ht, hs n cls hfind]
  split
  · rename_i cls f hfind
    split
    · exact .some (.delegate (hname hfind))
    · exact picks_matchObject t _
  · rename_i cls f hfind
    split
    · refine .bind (orderly_fittingObject? _ t) fun found => ?_
      cases found with
      | none => exact .some (.interface (hname hfind))
      | some o => exact .some t.conversion_reads
    · exact picks_matchObject t _
  · exact picks_matchObject t _

section

variable {items : ItemReader} (hitems : ∀ v, Orderly .stored (items v)) {t : HostType}

include hitems

theorem picks_matchType (v : Value) : Picks (matchType items t v) t := by
  unfold matchType
  split
  · exact .some t.conversion_reads
  · cases ht : t.unwrapNullable with
    | any => exact .some (.any ht)
    | void => exact .none
    | handle k =>
      dsimp only
      split
      · exact .some (.handle ht)
      · exact .none
    | array e =>
      dsimp only
      split
      · exact .some t.conversion_reads
      · refine .bind (orderly_objectBehind? v) fun o => ?_
        split
        · refine .bind (orderly_itemsConvert hitems v) fun accepted => ?_
          split
          · exact .some (.arrayTable ht)
          · exact .none
        · refine .bind (orderly_fittingObject? v _) fun found => ?_
          cases found with
          | none => exact .none
          | some o => exact .some (.array ht)
    | named n =>
      dsimp only
      split
      · exact .some t.conversion_reads
      · exact picks_matchClass ht v
    | _ => exact .map _

end

/-! ## Reading a value -/

/-- From worlds whose classes stand under their own names an action gives only values that suit a
type. -/
def Yields (x : Action (Option HostValue)) (t : HostType) : Prop :=
  ∀ w : World, w.catalog.IsKeyed → ∀ v, (x w).1 = some v → (x w).2.Suits t v

namespace Yields

variable {t : HostType} {α : Type}

protected theorem none : Yields (pure none) t := fun _ _ _ h => nomatch h

/-- A value that conforms whatever the world is. -/
protected theorem some {v : HostValue}
    (h : ∀ (w : World) (isNew : ObjectRef → Prop), w.Conforms isNew t v) :
    Yields (pure (some v)) t :=
  fun w _ _ hv => Option.some.inj hv ▸ (h w fun _ => True).suits

protected theorem bind {x : Action α} {f : α → Action (Option HostValue)}
    (hx : Orderly .stored x) (hf : ∀ a, Yields (f a) t) : Yields (x >>= f) t :=
  fun w hw => hf _ _ (hw.grows (hx.sameStorage w).catalog)

protected theorem of_unwrap {x : Action (Option HostValue)} (h : Yields x t.unwrapNullable) :
    Yields x t :=
  fun w hw v hv => (h w hw v hv).of_unwrap

/-- A conversion that is not for scalars or `any` reads nil as null. -/
protected theorem nil_or {x : Action (Option HostValue)} (v : Value)
    (hnull : ∀ (w : World) (isNew : ObjectRef → Prop), w.Conforms isNew t .null)
    (hx : Yields x t) : Yields (if v.isNil then pure (some .null) else x) t := by
  split
  · exact .some hnull
  · exact hx

end Yields

section

variable {t : HostType}

theorem yields_scalarOf? (v : Value) (t : HostType) : Yields (pure (scalarOf? v t)) t := by
  cases h : scalarOf? v t with
  | none => exact .none
  | some x => exact .some (scalarOf?_conforms h).2

theorem yields_fittingObject? (v : Value) (t : HostType) :
    Yields (do return (← fittingObject? v t).map .object) t := by
  intro w _ x hx
  have hfit : (w.fittingObject? v t).map HostValue.object = some x := hx
  obtain ⟨o, ho, rfl⟩ := Option.map_eq_some_iff.mp hfit
  obtain ⟨hexposed, cell, hcell, hfits⟩ := World.fittingObject?_eq_some ho
  exact (World.conforms_of_fits hexposed hcell hfits fun _ => True).suits

/-- A new array suits the array type, whatever its items are. -/
theorem newArray_suits {e : HostType} (ht : t.unwrapNullable = .array e) {w : World}
    (hw : w.catalog.IsKeyed) (items : Array HostValue) :
    (newArray e items w).2.Suits t (.object (newArray e items w).1) := by
  refine .of_unwrap ?_
  rw [ht]
  exact .inr ⟨_, _, rfl, World.newArray_cell w e items, Catalog.arrayClass_name hw e⟩

theorem yields_newArray {e : HostType} (ht : t.unwrapNullable = .array e)
    (items : Array HostValue) : Yields (do return some (.object (← newArray e items))) t := by
  intro w hw x hx
  obtain rfl : HostValue.object (newArray e items w).1 = x := Option.some.inj hx
  exact newArray_suits ht hw items

/-- An adapter that is refused. -/
theorem yields_refused (refs : List Ref) (cause : Cause) :
    Yields ((do
      discard refs
      return .error cause) >>= fun made => pure (adapted made)) t := by
  rw [bind_assoc]
  exact .bind (orderly_discard refs) fun _ => .none

variable {cls : Class} (ht : t.unwrapNullable = .named cls.name)

include ht

/-- An adapter is an object of the class. -/
theorem yields_adapter (data : ObjectData) :
    Yields ((do return .ok (← newObject cls data)) >>= fun made => pure (adapted made)) t := by
  intro w _ x hx
  obtain rfl : HostValue.object (newObject cls data w).1 = x := Option.some.inj hx
  exact .of_newObject ht w data

theorem yields_delegateFor (function : HandleRef) :
    Yields (do return adapted (← delegateFor cls function)) t := by
  unfold delegateFor makeDelegate
  rw [bind_assoc]
  refine .bind orderly_readSession fun s => ?_
  split
  · exact yields_refused _ _
  · cases cls.invokeMethod? with
    | some signature => exact yields_adapter ht _
    | none => exact yields_refused _ _

theorem yields_interfaceFor (table : HandleRef) :
    Yields (do return adapted (← interfaceFor cls table)) t := by
  unfold interfaceFor makeInterface
  rw [bind_assoc]
  refine .bind orderly_readSession fun s => ?_
  split
  · exact yields_refused _ _
  · split
    · exact yields_adapter ht _
    · exact yields_refused _ _

end

section

variable {items : ItemReader} (hitems : ∀ v, Orderly .stored (items v)) {t : HostType}

include hitems

theorem yields_readAs {c : Conversion} (hc : c.Reads t) (v : Value) :
    Yields (readAs items c v) t := by
  cases hc with
  | scalar h =>
    unfold readAs
    dsimp only
    split
    · rename_i hnil
      exact .some fun _ _ => World.conforms_null_of_unwrap (Bool.and_eq_true_iff.mp hnil).2
    · exact .of_unwrap (yields_scalarOf? v _)
  | any h =>
    refine .of_unwrap ?_
    rw [h]
    exact fun _ _ _ _ => trivial
  | handle h =>
    rename_i k
    have hconforms (x : HostValue) (hx : x = .null ∨ ∃ a, x = .handle k a) (w : World)
        (isNew : ObjectRef → Prop) : w.Conforms isNew t x := by
      refine .of_unwrap ?_
      rw [h]
      exact hx
    refine .nil_or v (hconforms _ (.inl rfl)) ?_
    split
    · exact .bind (orderly_toHandle v) fun a => .some (hconforms _ (.inr ⟨a, rfl⟩))
    · exact .none
  | «class» h =>
    refine .nil_or v (conforms_null_of_named h) (.of_unwrap ?_)
    rw [h]
    exact yields_fittingObject? v _
  | array h =>
    refine .nil_or v (conforms_null_of_array h) (.of_unwrap ?_)
    rw [h]
    exact yields_fittingObject? v _
  | arrayTable h =>
    refine .nil_or v (conforms_null_of_array h) (.bind (hitems v) fun converted => ?_)
    cases converted with
    | some converted => exact yields_newArray h _
    | none => exact .none
  | delegate h =>
    refine .nil_or v (conforms_null_of_named h) ?_
    cases v with
    | function f => exact .bind (orderly_toHandle _) fun a => yields_delegateFor h a
    | _ => exact .none
  | interface h =>
    refine .nil_or v (conforms_null_of_named h) ?_
    cases v with
    | table f => exact .bind (orderly_toHandle _) fun a => yields_interfaceFor h a
    | _ => exact .none

theorem yields_convertWith (t : HostType) (v : Value) : Yields (convertWith items t v) t := by
  intro w hw x hx
  have hpick := picks_matchType hitems (t := t) v w hw
  have hkeyed := hw.grows ((orderly_matchType hitems t v).sameStorage w).catalog
  unfold convertWith at hx ⊢
  cases hmatch : matchType items t v w with | mk c w₁
  rw [bind_of_eq hmatch] at hx ⊢
  rw [hmatch] at hpick hkeyed
  cases c with
  | none => cases hx
  | some c => exact yields_readAs hitems (hpick c rfl) v w₁ hkeyed x hx

end

/-- What a value converts to suits the type. -/
theorem yields_asType (t : HostType) (v : Value) : Yields (asType t v) t := by
  unfold asType
  split
  · exact yields_convertWith (orderly_readItems fun v => orderly_asType _ v) _ _
  · exact yields_convertWith (orderly_readItems fun v => orderly_asType _ v) _ _
  · exact yields_convertWith orderly_noItems _ _

end ScriptBridge
