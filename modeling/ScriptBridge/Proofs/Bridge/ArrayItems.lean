import ScriptBridge.Proofs.Bridge.Assignment
import ScriptBridge.Proofs.Bridge.Isolation
import ScriptBridge.Proofs.Conversion.Suiting
import ScriptBridge.Proofs.Course.Sparing
import ScriptBridge.Proofs.Dispatch.Filling

/-!
# Items of arrays

An array keeps its length and its element type, and each of its items is the default value of that
type or suits it (`World.HasArray`).

1. A small step that stores nothing in arrays keeps that, since the array holds the objects among
   its items (`HasArray.step`), and so does a write of a value that suits (`HasArray.setElement`).
2. An assignment that is accepted for an element comes with a value that suits
   (`element_of_acceptOnObject`), so scripts may assign to arrays.
3. `Conduct.arrays`: whatever runs keeps arrays, unless host bodies store in them.
-/

namespace ScriptBridge

/-! ## Objects through a step -/

namespace World

variable {w w' : World} {b b' : List Pending}

theorem Step.next_le (h : w.Step b w' b') : w.objects.next ≤ w'.objects.next := by
  cases h with
  | newObject cls data =>
    exact Nat.le_trans (Nat.le_succ _) (Nat.le_of_eq (Store.next_add _ _).symm)
  | setObject o data => exact Nat.le_of_eq (Store.next_modify _ _ _).symm
  | reclaim d rest => exact (SameContents.reclaimed w d rest).objects.next
  | _ => exact Nat.le_refl _

/-- An object that was made before has the class it had. -/
theorem Step.exists_before (h : w.Step b w' b') {i : Nat} {cell' : HostObject}
    (hi : i < w.objects.next) (hcell' : w'.objects.get? i = some cell') :
    ∃ cell, w.objects.get? i = some cell ∧ cell'.cls = cell.cls := by
  cases h with
  | newObject cls data =>
    exact ⟨cell', (Store.get?_add_of_lt _ _ hi).symm.trans hcell', rfl⟩
  | setObject o data =>
    replace hcell' : (w.objects.modify o.index ({ · with data })).get? i = some cell' := hcell'
    rw [Store.get?_modify] at hcell'
    split at hcell'
    · obtain ⟨cell, hcell, rfl⟩ := Option.map_eq_some_iff.mp hcell'
      exact ⟨cell, hcell, rfl⟩
    · exact ⟨cell', hcell', rfl⟩
  | reclaim d rest =>
    exact ⟨cell', (SameContents.reclaimed w d rest).objects.get? i cell' hi hcell', rfl⟩
  | _ => exact ⟨cell', hcell', rfl⟩

/-- Writing to objects leaves their classes as they are. -/
theorem exists_modified {i j : Nat} {cell : HostObject} (data : ObjectData)
    (hcell : w.objects.get? j = some cell) :
    ∃ cell', (w.objects.modify i ({ · with data })).get? j = some cell' ∧
      cell'.cls = cell.cls := by
  rw [Store.get?_modify, hcell]
  split
  · exact ⟨_, rfl, rfl⟩
  · exact ⟨cell, rfl, rfl⟩

/-- An object that something holds stays, with its class. -/
theorem Step.exists_held (h : w.Step b w' b') {o : ObjectRef} {cell : HostObject}
    (hheld : w.holds (.object o) = true) (hcell : w.objects.get? o.index = some cell) :
    ∃ cell', w'.objects.get? o.index = some cell' ∧ cell'.cls = cell.cls := by
  cases h with
  | newObject cls data =>
    exact ⟨cell, (Store.get?_add_of_lt _ _ (Store.lt_next _ hcell)).trans hcell, rfl⟩
  | setObject o' data => exact exists_modified data hcell
  | reclaim d rest hfirst hfree =>
    have hne : Ref.object o ≠ d.ref := fun he => by
      rw [← he, hheld] at hfree
      cases hfree
    exact ⟨cell, ((empty_emptied { w with dropped := rest } d).objects o hne).trans hcell, rfl⟩
  | _ => exact ⟨cell, hcell, rfl⟩

end World

/-! ## Arrays -/

/-- An item of an array: the default value of the element type, or a value that suits it. -/
def World.IsItem (w : World) (e : HostType) (v : HostValue) : Prop :=
  v = e.defaultValue ∨ w.Suits e v

/-- The object was made, and as long as it is there it is an array of a length over an element
type. -/
structure World.HasArray (w : World) (a : ObjectRef) (e : HostType) (n : Nat) : Prop where
  made : a.index < w.objects.next
  content : ∀ cell, w.objects.get? a.index = some cell →
    cell.cls.name = (HostType.array e).name ∧
      ∃ items, cell.data = .array e items ∧ items.size = n ∧ ∀ v ∈ items, w.IsItem e v

namespace World

variable {w w' : World} {b b' : List Pending} {a : ObjectRef} {e : HostType} {n : Nat}

/-- Items stay items as long as the objects among them are there. -/
theorem IsItem.later {v : HostValue} (hcatalog : w.catalog.Grows w'.catalog)
    (hobjects : ∀ o cell, v = .object o → w.objects.get? o.index = some cell →
      ∃ cell', w'.objects.get? o.index = some cell' ∧ cell'.cls = cell.cls)
    (h : w.IsItem e v) : w'.IsItem e v :=
  h.imp_right (.later hcatalog hobjects)

/-- An array holds the objects among its items. -/
theorem holds_item {cell : HostObject} {items : Array HostValue} {o : ObjectRef}
    (hcell : w.objects.get? a.index = some cell) (hdata : cell.data = .array e items)
    (ho : .object o ∈ items) : w.holds (.object o) = true := by
  refine holds_of_cell (c := .object a) ?_
  show _ ∈ ((w.objects.get? a.index).map HostObject.refs).getD []
  rw [hcell]
  refine List.mem_append_right _ ?_
  rw [hdata]
  exact List.mem_flatMap.mpr ⟨_, Array.mem_toList_iff.mpr ho, List.mem_singleton.mpr rfl⟩

namespace HasArray

theorem of_same (h : w.HasArray a e n) (hobjects : w'.objects = w.objects)
    (hcatalog : w.catalog.Grows w'.catalog) : w'.HasArray a e n where
  made := hobjects ▸ h.made
  content cell hcell := by
    rw [hobjects] at hcell
    obtain ⟨hname, items, hdata, hsize, hitems⟩ := h.content cell hcell
    refine ⟨hname, items, hdata, hsize, fun v hv => (hitems v hv).later hcatalog ?_⟩
    exact fun o cell _ ho => ⟨cell, hobjects ▸ ho, rfl⟩

/-- A small step that stores nothing in arrays. -/
theorem step (h : w.HasArray a e n) (hstep : w.Step b w' b') (hsame : w.SameArrays w') :
    w'.HasArray a e n where
  made := Nat.lt_of_lt_of_le h.made hstep.next_le
  content cell' hcell' := by
    obtain ⟨cell, hcell, -⟩ := hstep.exists_before h.made hcell'
    obtain ⟨hname, items, hdata, hsize, hitems⟩ := h.content cell hcell
    have hcontent : cell.items? = some items := by
      unfold HostObject.items?
      rw [hdata]
    obtain rfl := hsame.objects hcell hcontent hcell'
    refine ⟨hname, items, hdata, hsize, fun v hv => (hitems v hv).later hsame.catalog ?_⟩
    rintro o item rfl hitem
    exact hstep.exists_held (holds_item hcell hdata hv) hitem

/-- An element of an array, perhaps of this one, is replaced by a value that suits. -/
theorem setElement (h : w.HasArray a e n) {ref : ObjectRef} {type : HostType}
    {items : Array HostValue}
    (hcontent : ∀ o, w.objects.get? ref.index = some o → o.data = .array type items) (i : Nat)
    {v : HostValue} (hv : w.Suits type v) :
    (setObjectData ref (.array type (items.setIfInBounds i v)) w).2.HasArray a e n := by
  let data : ObjectData := .array type (items.setIfInBounds i v)
  let w' : World := { w with objects := w.objects.modify ref.index ({ · with data }) }
  have hlater {x : HostValue} (hx : w.IsItem e x) : w'.IsItem e x :=
    hx.later (.refl w.catalog) fun _ _ _ hcell => exists_modified data hcell
  refine ⟨Nat.lt_of_lt_of_eq h.made (Store.next_modify _ _ _).symm, fun cell' hcell' => ?_⟩
  replace hcell' : (w.objects.modify ref.index ({ · with data })).get? a.index = some cell' :=
    hcell'
  rw [Store.get?_modify] at hcell'
  split at hcell'
  · rename_i hi
    obtain ⟨cell, hcell, rfl⟩ := Option.map_eq_some_iff.mp hcell'
    obtain ⟨hname, items', hdata, hsize, hitems⟩ := h.content cell hcell
    obtain ⟨rfl, rfl⟩ := ObjectData.array.inj (hdata.symm.trans (hcontent cell (hi ▸ hcell)))
    refine ⟨hname, _, rfl, (Array.size_setIfInBounds ..).trans hsize, fun x hx => hlater ?_⟩
    obtain hx | rfl := Array.mem_or_eq_of_mem_setIfInBounds hx
    · exact hitems x hx
    · exact .inr hv
  · obtain ⟨hname, items', hdata, hsize, hitems⟩ := h.content cell' hcell'
    exact ⟨hname, items', hdata, hsize, fun x hx => hlater (hitems x hx)⟩

/-- A new array of values that are items. -/
theorem of_newArray (hk : w.catalog.IsKeyed) {items : Array HostValue}
    (hitems : ∀ v ∈ items, v = e.defaultValue) :
    (newArray e items w).2.HasArray (newArray e items w).1 e items.size where
  made := Store.lt_next _ (newArray_cell w e items)
  content cell hcell := by
    obtain rfl := Option.some.inj (hcell.symm.trans (newArray_cell w e items))
    exact ⟨Catalog.arrayClass_name hk e, items, rfl, rfl, fun v hv => .inl (hitems v hv)⟩

end HasArray

end World

/-! ## Accepted assignments -/

/-- An assignment to an element is one of the object's own items, by a value that suits them. -/
def Assignment.Fits (ref : ObjectRef) (o : HostObject) (w : World) : Assignment → Prop
  | .element ref' type items _ v => ref' = ref ∧ o.data = .array type items ∧ w.Suits type v
  | _ => True

section

variable {w w' : World} {a : Assignment} {ref : ObjectRef} {o : HostObject}

theorem fits_of_acceptMember {target : Option ObjectRef} {cls : Class} {name : String}
    {found : FoundMember} (h : acceptMember target cls name found w = .ok a w') :
    a.Fits ref o w' := by
  unfold acceptMember at h
  cases found with
  | field f | property f =>
    dsimp only at h
    cases hset : f.set with
    | none =>
      rw [hset] at h
      cases h
    | some set =>
      rw [hset] at h
      obtain ⟨v, w₁, -, h⟩ := exists_of_bind_ok h
      cases h
      trivial
  | _ => cases h

theorem fits_of_acceptNamed {cls : Class} (h : acceptNamed ref cls w = .ok (some a) w') :
    a.Fits ref o w' := by
  obtain ⟨v, w₁, -, h⟩ := exists_of_bind_ok h
  cases v with
  | text name =>
    obtain ⟨found, w₂, -, h⟩ := exists_of_bind_ok h
    cases hown : found.filter (!·.isStatic) with
    | some own =>
      rw [hown] at h
      obtain ⟨a', w₃, ha, h⟩ := exists_of_bind_ok h
      cases h
      exact fits_of_acceptMember ha
    | none =>
      rw [hown] at h
      obtain ⟨found, w₃, -, h⟩ := exists_of_bind_ok h
      cases found <;> cases h
  | _ => cases h

theorem fits_of_acceptIndexed (h : acceptIndexed ref o w = .ok (some a) w') :
    a.Fits ref o w' := by
  obtain ⟨owner, w₁, -, h⟩ := exists_of_bind_ok h
  cases owner with
  | none => cases h
  | some owner =>
    dsimp only at h
    cases hindexer : owner.indexer with
    | none =>
      rw [hindexer] at h
      cases h
    | some indexer =>
      rw [hindexer] at h
      dsimp only at h
      split at h
      · cases h
      · obtain ⟨key, w₂, -, h⟩ := exists_of_bind_ok h
        obtain ⟨v, w₃, -, h⟩ := exists_of_bind_ok h
        cases v with
        | ok v =>
          cases h
          trivial
        | error e => cases h

/-- A slot is converted to a value that suits the type. -/
theorem suits_of_convertSlot {i : Int} {t : HostType} {v : HostValue} (hk : w.catalog.IsKeyed)
    (h : convertSlot i t w = .ok v w') : w'.Suits t v := by
  obtain ⟨slot, w₁, hslot, h⟩ := exists_of_bind_ok h
  cases hslot
  obtain ⟨converted, w₂, hconverted, h⟩ := exists_of_bind_ok h
  have hrun : asType t (w.machine.value i) w = (converted, w₂) := by
    cases hconverted
    rfl
  cases converted with
  | none => cases h
  | some v' =>
    cases h
    have hyields := yields_asType t (w.machine.value i) w hk v
    rw [hrun] at hyields
    exact hyields rfl

theorem fits_of_acceptElement (hk : w.catalog.IsKeyed)
    (h : acceptElement ref o w = .ok (some a) w') : a.Fits ref o w' := by
  unfold acceptElement at h
  obtain ⟨key, w₁, hkey, h⟩ := exists_of_bind_ok h
  cases hkey
  cases hdata : o.data with
  | array type items =>
    rw [hdata] at h
    cases hnumber : w.machine.value 2 with
    | number n =>
      rw [hnumber] at h
      obtain ⟨i, w₁, hposition, h⟩ := exists_of_bind_ok h
      obtain ⟨v, w₂, hconvert, h⟩ := exists_of_bind_ok h
      cases h
      have hsame := (orderly_arrayPosition items.size).sameStorageAfter w
      rw [hposition] at hsame
      exact ⟨rfl, hdata, suits_of_convertSlot (hk.grows hsame.catalog) hconvert⟩
    | _ =>
      rw [hnumber] at h
      cases h
  | _ =>
    rw [hdata] at h
    cases h

theorem cases_of_acceptFirst {x : Host (Option Assignment)} {y : Host Assignment}
    (h : acceptFirst x y w = .ok a w') :
    x w = .ok (some a) w' ∨ ∃ w₁, x w = .ok none w₁ ∧ y w₁ = .ok a w' := by
  obtain ⟨first, w₁, hx, h⟩ := exists_of_bind_ok h
  cases first with
  | some a' =>
    cases h
    exact .inl hx
  | none => exact .inr ⟨w₁, hx, h⟩

instance : Regime.stored.Stored where
  of_same := by
    rintro _ w w' ⟨w₀, rfl⟩ hw hobjects hcells hcatalog
    exact hw.trans ⟨.of_same hobjects hcells, hcatalog⟩

/-- What is accepted for an element puts a value there that suits the type of the items. -/
theorem element_of_acceptOnObject (hk : w.catalog.IsKeyed) {type : HostType}
    {items : Array HostValue} {i : Nat} {v : HostValue}
    (h : acceptOnObject w = .ok (.element ref type items i v) w') :
    (∃ o, w.objects.get? ref.index = some o ∧ o.data = .array type items) ∧ w'.Suits type v := by
  obtain ⟨⟨ref', o⟩, w₁, hself, hrest⟩ := exists_of_bind_ok h
  obtain ⟨rfl, hself⟩ := self?_of_selfObject hself
  have hfits : (Assignment.element ref type items i v).Fits ref' o w' := by
    obtain h | ⟨w₂, hnamed, h⟩ := cases_of_acceptFirst hrest
    · exact fits_of_acceptNamed h
    obtain h | ⟨w₃, -, h⟩ := cases_of_acceptFirst h
    · have hsame := (orderly_acceptNamed ref' o.cls).sameStorageAfter w₁
      rw [hnamed] at hsame
      exact fits_of_acceptElement (hk.grows hsame.catalog) h
    obtain h | ⟨w₄, -, h⟩ := cases_of_acceptFirst h
    · exact fits_of_acceptIndexed h
    · obtain ⟨name, w₅, -, h⟩ := exists_of_bind_ok h
      cases h
  obtain ⟨rfl, hdata, hsuits⟩ := hfits
  exact ⟨⟨o, get?_of_self? hself, hdata⟩, hsuits⟩

end

/-! ## What runs keep -/

/-- To keep an array, and the classes under their own names. -/
def Regime.arrays (a : ObjectRef) (e : HostType) (n : Nat) : Regime where
  Has Q := Q = fun w => w.catalog.IsKeyed ∧ w.HasArray a e n
  step := by
    rintro _ w w' rfl ⟨hk, hw⟩ hstep hsame
    exact ⟨hk.grows hsame.catalog, hw.step (hstep []) hsame.sameArrays⟩
  pushed := by
    rintro _ w v rfl ⟨hk, hw⟩
    exact ⟨_, rfl, ⟨hk, hw.of_same rfl (.refl _)⟩, fun w' ⟨hk', hw'⟩ => by
      rw [Machine.popValue_eq]
      exact ⟨hk', hw'.of_same rfl (.refl _)⟩⟩

section

variable (a : ObjectRef) (e : HostType) (n : Nat)

instance : (Regime.arrays a e n).Stores where
  store := by
    rintro _ w w' rfl ⟨hk, hw⟩ hstep hsame
    exact ⟨hk.grows hsame.catalog, hw.step (hstep []) hsame⟩

instance : (Regime.arrays a e n).Stored where
  of_same := by
    rintro _ w w' rfl ⟨hk, hw⟩ hobjects - hcatalog
    exact ⟨hk.grows hcatalog, hw.of_same hobjects hcatalog⟩

/-- Scripts store in arrays only what suits them. -/
theorem arrays_objectAssign : Orderly (Regime.arrays a e n) objectAssign := by
  rw [objectAssign_eq]
  rintro _ rfl w hw
  have haccept := (orderly_acceptOnObject (R := Regime.arrays a e n) _ rfl w hw).2
  have hsame := orderly_acceptOnObject.sameStorageAfter w
  refine ⟨rfl, ?_⟩
  cases hrun : acceptOnObject w with
  | error failure w' =>
    rw [bind_of_error hrun]
    rw [hrun] at haccept
    exact haccept
  | ok assignment w' =>
    rw [hrun] at haccept hsame
    rw [bind_of_ok hrun]
    have hdone : Orderly (Regime.arrays a e n) (pure 0 : Host Nat) := .pure 0
    cases assignment with
    | member target set v =>
      exact ((orderly_setterRun set target v).bind (fun _ => hdone) _ rfl w' haccept).2
    | item ref key v =>
      exact ((orderly_indexerSet ref key v).bind (fun _ => hdone) _ rfl w' haccept).2
    | element ref type items i v =>
      -- The array may be gone by now, but if it is there it holds the items it held.
      obtain ⟨⟨o, hcell, hdata⟩, hsuits⟩ := element_of_acceptOnObject hw.1 hrun
      have hcontent (o' : HostObject) (ho' : w'.objects.get? ref.index = some o') :
          o'.data = .array type items := by
        have hsame := hsame.objects.get? _ _ (Store.lt_next _ hcell) ho'
        rw [← hdata, Option.some.inj (hcell.symm.trans hsame)]
      let w₁ := (setObjectData ref (.array type (items.setIfInBounds i v)) w').2
      have hset : w₁.catalog.IsKeyed ∧ w₁.HasArray a e n :=
        ⟨haccept.1, haccept.2.setElement hcontent i hsuits⟩
      have hdiscard : Orderly (Regime.arrays a e n) (discard (items.getD i .null).refs) :=
        orderly_discard _
      exact (hdiscard _ rfl w₁ hset).2

/-- The conduct under which an array is kept. -/
def Conduct.arrays : Conduct := .ofStored (.arrays a e n) (arrays_objectAssign a e n)

end

end ScriptBridge
