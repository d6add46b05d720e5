import ScriptBridge.Proofs.Vm.Table
import ScriptBridge.Vm.Reference

/-!
# The slots of the registry table

References are numbers of slots in the registry table. Those that can be given out next are the
numbers on the free list and all from the next new one on, and their slots hold nothing that
lives in the heap. Taking one and writing a value under it leaves the others in order, and loses
nothing that another slot holds.
-/

namespace ScriptBridge

/-- A number of a reference at the head of the free list. -/
theorem Reference.head_ofInt {r : Int} (hpos : 0 < r) (hsmall : r ≤ IntegerKind.i32.hi) :
    Reference.head (.number (Number.ofInt r)) = r := by
  have hhi : IntegerKind.i32.hi = 2147483647 := by decide
  have hlo : IntegerKind.i32.lo = -2147483648 := by decide
  exact Number.clamp_ofInt (by omega) (by omega) hsmall

theorem Reference.head_zero : Reference.head (.number Number.zero) ≤ 0 := by decide +kernel

namespace Table

variable {live : Value → Bool} {t t' : Table}

theorem text_ne_integer (s : String) (n : Int) : Key.text s ≠ .integer n := nofun

/-! ## Slots that hold nothing -/

/-- Whatever stands under the key is a value without a cell. -/
def IsBare (t : Table) (k : Key) : Prop :=
  ∀ e, t.find? k = some e → e.written.refs = [] ∧ ∃ v, e.slot = .strong v ∧ v.refs = []

theorem IsBare.congr {k : Key} (h : t.IsBare k) (hk : t'.find? k = t.find? k) : t'.IsBare k :=
  fun e he => h e (hk ▸ he)

theorem IsBare.entry_refs {k : Key} (h : t.IsBare k) {e : Entry} (he : t.find? k = some e) :
    e.refs = [] := by
  obtain ⟨hwritten, v, hslot, hv⟩ := h e he
  unfold Entry.refs
  rw [hwritten, hslot]
  show [] ++ ([v].flatMap Value.refs) = []
  rw [List.flatMap_singleton, hv]
  rfl

/-- Writing over such a slot lets go of nothing. -/
theorem IsBare.heldBy_refs {k : Key} (h : t.IsBare k) : (t.heldBy k).flatMap Value.refs = [] := by
  unfold heldBy
  cases he : t.find? k with
  | none => rfl
  | some e => exact h.entry_refs he

theorem IsBare.getKey_refs {k : Key} (h : t.IsBare k) : (t.getKey live k).refs = [] := by
  unfold getKey
  cases he : t.find? k with
  | none => rfl
  | some e =>
    obtain ⟨-, v, hslot, hv⟩ := h e he
    show (e.slot.read live).refs = []
    rw [hslot]
    exact hv

/-- Reading such a slot does not depend on what is still there. -/
theorem IsBare.getKey_live {live' : Value → Bool} {k : Key} (h : t.IsBare k) :
    t.getKey live' k = t.getKey live k := by
  unfold getKey
  cases he : t.find? k with
  | none => rfl
  | some e =>
    obtain ⟨-, v, hslot, -⟩ := h e he
    show e.slot.read live' = e.slot.read live
    rw [hslot]
    rfl

theorem getKey_congr {k : Key} (h : t'.find? k = t.find? k) :
    t'.getKey live k = t.getKey live k := by
  unfold getKey
  rw [h]

/-- A write that does not remove keeps what other slots hold. -/
theorem refs_setKey {k : Key} (h : t.IsBare k) (key : Value) {value : Value}
    (hvalue : value.isNil = false) {r : Ref} (hr : r ∈ t.refs) :
    r ∈ (t.setKey k key value).1.refs := by
  have hentries (e : Entry) (he : e.key = k) (entries : List Entry)
      (hbare : ∀ e', entries.find? (·.key == k) = some e' → e'.refs = [])
      (hmem : r ∈ entries.flatMap Entry.refs) :
      r ∈ (putEntry e entries).flatMap Entry.refs := by
    induction entries with
    | nil => exact absurd hmem List.not_mem_nil
    | cons e' rest ih =>
      rw [List.flatMap_cons] at hmem
      unfold putEntry
      split
      · rename_i hkey
        have hfirst := hbare e' ((find?_cons_key e' k rest).trans
          (if_pos ((beq_iff_eq.mp hkey).trans he)))
        rw [hfirst] at hmem
        rw [List.flatMap_cons]
        exact List.mem_append_right _ hmem
      · rename_i hkey
        have hrest (e'' : Entry) (he'' : rest.find? (·.key == k) = some e'') : e''.refs = [] := by
          refine hbare e'' ?_
          rw [find?_cons_key, if_neg fun hk => hkey (beq_iff_eq.mpr (hk.trans he.symm))]
          exact he''
        rw [List.flatMap_cons]
        obtain hmem | hmem := List.mem_append.mp hmem
        · exact List.mem_append_left _ hmem
        · exact List.mem_append_right _ (ih hrest hmem)
  unfold Table.refs at hr ⊢
  unfold setKey
  dsimp only
  rw [hvalue]
  obtain hr | hr := List.mem_append.mp hr
  · exact List.mem_append_left _ (hentries _ rfl t.entries (fun _ he => h.entry_refs he) hr)
  · exact List.mem_append_right _ hr

theorem slotFor_of_strong (h : t.weakValues = false) (value : Value) :
    t.slotFor value = .strong value := by
  unfold slotFor
  rw [h]
  cases value <;> rfl

theorem mem_putEntry (e : Entry) (entries : List Entry) : e ∈ putEntry e entries := by
  induction entries with
  | nil => exact List.mem_singleton_self e
  | cons e' rest ih =>
    unfold putEntry
    split
    · exact List.mem_cons_self
    · exact List.mem_cons_of_mem _ ih

/-- What is written into a table that is not weak is held by it. -/
theorem value_refs_setKey (h : t.weakValues = false) (k : Key) (key : Value) {value : Value}
    (hvalue : value.isNil = false) {r : Ref} (hr : r ∈ value.refs) :
    r ∈ (t.setKey k key value).1.refs := by
  unfold setKey
  dsimp only
  rw [hvalue, slotFor_of_strong h]
  refine List.mem_append_left _ (List.mem_flatMap.mpr ⟨_, mem_putEntry _ _, ?_⟩)
  refine List.mem_append_right _ ?_
  show r ∈ [value].flatMap Value.refs
  rw [List.flatMap_singleton]
  exact hr

/-! ## The free list -/

/-- The numbers of a free list whose head is in a value. -/
def Frees (t : Table) (live : Value → Bool) : Value → List Int → Prop
  | v, [] => Reference.head v ≤ 0
  | v, r :: rest => Reference.head v = r ∧ 0 < r ∧ (t.getInt live r).isNil = false ∧
      Frees t live (t.getInt live r) rest

theorem Frees.congr {rs : List Int} {v : Value} (h : t.Frees live v rs)
    (hslots : ∀ r ∈ rs, t'.find? (.integer r) = t.find? (.integer r)) : t'.Frees live v rs := by
  induction rs generalizing v with
  | nil => exact h
  | cons r rest ih =>
    obtain ⟨hhead, hpos, hnil, hrest⟩ := h
    have hget : t'.getInt live r = t.getInt live r := getKey_congr (hslots r List.mem_cons_self)
    refine ⟨hhead, hpos, ?_, ?_⟩
    · rw [hget]
      exact hnil
    · rw [hget]
      exact ih hrest fun r' hr' => hslots r' (List.mem_cons_of_mem _ hr')

theorem Frees.congr_live {live' : Value → Bool} {rs : List Int} {v : Value} (h : t.Frees live v rs)
    (hbare : ∀ r ∈ rs, t.IsBare (.integer r)) : t.Frees live' v rs := by
  induction rs generalizing v with
  | nil => exact h
  | cons r rest ih =>
    obtain ⟨hhead, hpos, hnil, hrest⟩ := h
    have hget : t.getInt live' r = t.getInt live r := (hbare r List.mem_cons_self).getKey_live
    refine ⟨hhead, hpos, ?_, ?_⟩
    · rw [hget]
      exact hnil
    · rw [hget]
      exact ih hrest fun r' hr' => hbare r' (List.mem_cons_of_mem _ hr')

/-- A free list has one reading. -/
theorem Frees.unique {rs rs' : List Int} {v : Value} (h : t.Frees live v rs)
    (h' : t.Frees live v rs') : rs = rs' := by
  induction rs generalizing v rs' with
  | nil =>
    cases rs' with
    | nil => rfl
    | cons r' rest' =>
      obtain ⟨hhead, hpos, -⟩ := h'
      have hnone : Reference.head v ≤ 0 := h
      omega
  | cons r rest ih =>
    cases rs' with
    | nil =>
      obtain ⟨hhead, hpos, -⟩ := h
      have hnone : Reference.head v ≤ 0 := h'
      omega
    | cons r' rest' =>
      have hr : r = r' := h.1.symm.trans h'.1
      subst hr
      rw [ih h.2.2.2 h'.2.2.2]

/-- The numbers `rs` are on the free list, and all from `next` on are new. -/
structure Slots (t : Table) (live : Value → Bool) (next : Int) (rs : List Int) : Prop where
  strong : t.weakValues = false
  field : t.IsBare (.text Reference.freeField)
  free : t.Frees live (t.getText live Reference.freeField) rs
  nodup : rs.Nodup
  old : ∀ r ∈ rs, r < next
  bare : ∀ r ∈ rs, t.IsBare (.integer r)
  fresh : ∀ r, next ≤ r → t.IsBare (.integer r)

/-- What a table keeps while references are given out: the metatable, the other texts, and what
stands under numbers that were given out before. -/
structure Extends (t t' : Table) : Prop where
  metatable : t'.metatable = t.metatable
  texts : ∀ name, name ≠ Reference.freeField → t'.find? (.text name) = t.find? (.text name)
  kept : ∀ r, ¬ t.IsBare (.integer r) → t'.find? (.integer r) = t.find? (.integer r)

theorem Extends.refl (t : Table) : t.Extends t := ⟨rfl, fun _ _ => rfl, fun _ _ => rfl⟩

theorem Extends.trans {t₁ t₂ t₃ : Table} (h : t₁.Extends t₂) (h' : t₂.Extends t₃) :
    t₁.Extends t₃ where
  metatable := h'.metatable.trans h.metatable
  texts name hname := (h'.texts name hname).trans (h.texts name hname)
  kept r hr := by
    have hkept := h.kept r hr
    exact (h'.kept r fun hbare => hr (hbare.congr hkept.symm)).trans hkept

/-- The head of the free list is no text that is kept. -/
theorem extends_setFree (t : Table) (value : Value) :
    t.Extends (t.setText Reference.freeField value).1 where
  metatable := rfl
  texts _ hname := t.find?_setKey_of_ne (fun he => hname (Key.text.inj he).symm) _ _
  kept r _ := t.find?_setKey_of_ne (text_ne_integer _ r) _ _

namespace Slots

variable {next r : Int} {rs : List Int}

theorem congr_live (h : t.Slots live next rs) (live' : Value → Bool) :
    t.Slots live' next rs where
  strong := h.strong
  field := h.field
  free := by
    have hget : t.getText live' Reference.freeField = t.getText live Reference.freeField :=
      h.field.getKey_live
    rw [hget]
    exact h.free.congr_live h.bare
  nodup := h.nodup
  old := h.old
  bare := h.bare
  fresh := h.fresh

/-- Takes the first number off the free list. -/
theorem take (h : t.Slots live next (r :: rs)) :
    (t.setText Reference.freeField (t.getInt live r)).1.Slots live next rs ∧ r ∉ rs := by
  obtain ⟨-, -, hnil, hrest⟩ := h.free
  obtain ⟨hmem, hnodup⟩ := List.nodup_cons.mp h.nodup
  have hint (i : Int) : (t.setText Reference.freeField (t.getInt live r)).1.find? (.integer i) =
      t.find? (.integer i) := t.find?_setKey_of_ne (text_ne_integer _ i) _ _
  have hentry : (t.setText Reference.freeField (t.getInt live r)).1.find?
      (.text Reference.freeField) = some ⟨.text Reference.freeField, .text Reference.freeField,
        .strong (t.getInt live r)⟩ := by
    rw [← slotFor_of_strong h.strong]
    exact t.find?_setKey_self _ _ hnil
  have hget : (t.setText Reference.freeField (t.getInt live r)).1.getText live
      Reference.freeField = t.getInt live r := by
    unfold getText getKey
    rw [hentry]
    rfl
  refine ⟨{
    strong := h.strong
    field := fun e he => ?_
    free := ?_
    nodup := hnodup
    old := fun r' hr' => h.old r' (List.mem_cons_of_mem _ hr')
    bare := fun r' hr' => (h.bare r' (List.mem_cons_of_mem _ hr')).congr (hint r')
    fresh := fun r' hr' => (h.fresh r' hr').congr (hint r') }, hmem⟩
  · rw [hentry] at he
    cases he
    exact ⟨rfl, _, rfl, (h.bare r List.mem_cons_self).getKey_refs⟩
  · rw [hget]
    exact hrest.congr fun r' _ => hint r'

/-- The next new number is given out. -/
theorem advance (h : t.Slots live next rs) : t.Slots live (next + 1) rs ∧ next ∉ rs :=
  ⟨{ h with
      old := fun r hr => Int.lt_add_one_of_le (Int.le_of_lt (h.old r hr))
      fresh := fun r hr => h.fresh r (by omega) },
    fun hmem => Int.lt_irrefl _ (h.old next hmem)⟩

/-- Makes a number the head of the free list, once its slot points to the old head. -/
theorem link (h : t.Slots live next rs) (hstrong : t'.weakValues = false)
    {written below : Value}
    (hself : t'.find? (.integer r) = some ⟨.integer r, written, .strong below⟩)
    (hwritten : written.refs = []) (hbelow : below.refs = []) (hnil : below.isNil = false)
    (hother : ∀ i, r ≠ i → t'.find? (.integer i) = t.find? (.integer i))
    (hbehind : t.Frees live below rs) {word : Number} (hhead : Reference.head (.number word) = r)
    (hpos : 0 < r) (hold : r < next) (hmem : r ∉ rs) :
    (t'.setText Reference.freeField (.number word)).1.Slots live next (r :: rs) := by
  have hint (i : Int) : (t'.setText Reference.freeField (.number word)).1.find? (.integer i) =
      t'.find? (.integer i) :=
    t'.find?_setKey_of_ne (text_ne_integer _ i) _ _
  have hentry : (t'.setText Reference.freeField (.number word)).1.find?
      (.text Reference.freeField) = some ⟨.text Reference.freeField, .text Reference.freeField,
        .strong (.number word)⟩ := by
    rw [← slotFor_of_strong hstrong]
    exact t'.find?_setKey_self _ _ rfl
  have hgetHead : (t'.setText Reference.freeField (.number word)).1.getText live
      Reference.freeField = .number word := by
    unfold getText getKey
    rw [hentry]
    rfl
  have hgetSelf : (t'.setText Reference.freeField (.number word)).1.getInt live r = below := by
    unfold getInt getKey
    rw [hint, hself]
    rfl
  have hfree (r' : Int) (hr' : r' ∈ rs) :
      (t'.setText Reference.freeField (.number word)).1.find? (.integer r') =
        t.find? (.integer r') := by
    refine (hint r').trans (hother r' fun he => hmem ?_)
    rw [he]
    exact hr'
  exact {
    strong := hstrong
    field := fun e he => by
      rw [hentry] at he
      cases he
      exact ⟨rfl, _, rfl, rfl⟩
    free := by
      rw [hgetHead]
      refine ⟨hhead, hpos, ?_, ?_⟩
      · rw [hgetSelf]
        exact hnil
      · rw [hgetSelf]
        exact hbehind.congr hfree
    nodup := List.nodup_cons.mpr ⟨hmem, h.nodup⟩
    old := List.forall_mem_cons.mpr ⟨hold, h.old⟩
    bare := List.forall_mem_cons.mpr ⟨fun e he => by
        rw [hint, hself] at he
        cases he
        exact ⟨hwritten, _, rfl, hbelow⟩,
      fun r' hr' => (h.bare r' hr').congr (hfree r' hr')⟩
    fresh := fun r' hr' => (h.fresh r' hr').congr
      ((hint r').trans (hother r' fun he => Int.not_lt.mpr hr' (he ▸ hold))) }

variable (hr : r.natAbs ≤ 2 ^ 53)
include hr

theorem find?_setInt_of_ne {k : Key} (hk : .integer r ≠ k) (value : Value) :
    (t.setInt r value).1.find? k = t.find? k := by
  rw [t.setInt_eq hr]
  exact t.find?_setKey_of_ne hk _ _

theorem find?_setInt_self (hstrong : t.weakValues = false) {value : Value}
    (hvalue : value.isNil = false) :
    (t.setInt r value).1.find? (.integer r) =
      some ⟨.integer r, .number (Number.ofInt r), .strong value⟩ := by
  rw [t.setInt_eq hr, ← slotFor_of_strong hstrong]
  exact t.find?_setKey_self _ _ hvalue

/-- Writing under a number that was given out. -/
theorem write (h : t.Slots live next rs) (hold : r < next) (hmem : r ∉ rs) (value : Value) :
    (t.setInt r value).1.Slots live next rs := by
  have hother {k : Key} (hk : .integer r ≠ k) := find?_setInt_of_ne (t := t) hr hk value
  have hfree (r' : Int) (hr' : r' ∈ rs) : (t.setInt r value).1.find? (.integer r') =
      t.find? (.integer r') :=
    hother fun he => hmem (Key.integer.inj he ▸ hr')
  have hfield := hother (text_ne_integer Reference.freeField r).symm
  exact {
    strong := by
      rw [t.setInt_eq hr]
      exact h.strong
    field := h.field.congr hfield
    free := by
      have hget : (t.setInt r value).1.getKey live (.text Reference.freeField) =
          t.getKey live (.text Reference.freeField) := getKey_congr hfield
      unfold getText
      rw [hget]
      exact h.free.congr hfree
    nodup := h.nodup
    old := h.old
    bare := fun r' hr' => (h.bare r' hr').congr (hfree r' hr')
    fresh := fun r' hr' => (h.fresh r' hr').congr
      (hother fun he => Int.not_lt.mpr hr' (Key.integer.inj he ▸ hold)) }

theorem extends_write (hbare : t.IsBare (.integer r)) (value : Value) :
    t.Extends (t.setInt r value).1 where
  metatable := by
    rw [t.setInt_eq hr]
    rfl
  texts name _ := find?_setInt_of_ne hr (text_ne_integer name r).symm value
  kept r' hkept := by
    refine find?_setInt_of_ne hr (fun he => hkept ?_) value
    rw [← he]
    exact hbare

/-- Puts a number that was given out back on the free list. -/
theorem release (h : t.Slots live next rs) (hpos : 0 < r) (hsmall : r ≤ IntegerKind.i32.hi)
    (hold : r < next) (hmem : r ∉ rs) {below : Value}
    (hbelow : below = if (t.getText live Reference.freeField).isNil then .number Number.zero
      else t.getText live Reference.freeField) :
    ((t.setInt r below).1.setText Reference.freeField (.number (Number.ofInt r))).1.Slots live
      next (r :: rs) := by
  have hnil : below.isNil = false := by
    rw [hbelow]
    split
    · rfl
    · rename_i hfree
      exact Bool.eq_false_iff.mpr hfree
  have hbare : below.refs = [] := by
    rw [hbelow]
    split
    · rfl
    · exact h.field.getKey_refs
  have hbehind : t.Frees live below rs := by
    rw [hbelow]
    split
    · rename_i hfree
      have hfree := beq_iff_eq.mp hfree
      have hnone := h.free
      rw [hfree] at hnone
      cases rs with
      | nil => exact Reference.head_zero
      | cons r' rest =>
        have hhead : (0 : Int) = r' := hnone.1
        exact absurd hnone.2.1 (Int.not_lt.mpr (Int.le_of_eq hhead.symm))
    · exact h.free
  have hstrong : (t.setInt r below).1.weakValues = false := by
    rw [t.setInt_eq hr]
    exact h.strong
  exact h.link hstrong (find?_setInt_self hr h.strong hnil) rfl hbare hnil
    (fun i hi => find?_setInt_of_ne hr (fun he => hi (Key.integer.inj he)) below) hbehind
    (Reference.head_ofInt hpos hsmall) hpos hold hmem

end Slots

end Table

end ScriptBridge
