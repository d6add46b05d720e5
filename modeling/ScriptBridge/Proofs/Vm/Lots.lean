import ScriptBridge.Proofs.Vm.Reference

/-!
# Lots of reference numbers

Every number that was ever given out is in one of three lots. It is in use, and its slot of the
registry table holds the value it was given out for; it is idle, on its way back; or it is on the
free list. `Table.Lots` says so of a table, and `World.Lots` of the registry table of the running
machine.

1. A step of a table moves one number between the lots, or adds the next new one to them
   (`Table.Lots.reuse`, `grow`, `retire`, `release`).
2. Making a reference and releasing one are such steps (`createRef_lots`, `releaseRef_lots`). A
   number comes from the free list, or it is new if that list is empty.
-/

namespace ScriptBridge

/-- The numbers below `next` are those in use, each with its value, the idle ones and the free
ones. All of them, and therefore not always `next` itself, fit the type of references. -/
structure Table.Lots (t : Table) (next : Int) (used : List (Int × Value)) (idle free : List Int) :
    Prop where
  slots : t.Slots (fun _ => true) next free
  positive : 0 < next
  small : next ≤ IntegerKind.i32.hi + 1
  nodup : (used.map Prod.fst ++ (idle ++ free)).Nodup
  covers : ∀ r, 0 < r ∧ r < next ↔ r ∈ used.map Prod.fst ++ (idle ++ free)
  stored : ∀ l ∈ used, t.find? (.integer l.1) =
    some ⟨.integer l.1, .number (Number.ofInt l.1), .strong l.2⟩

namespace Table.Lots

variable {t t' : Table} {next r : Int} {used : List (Int × Value)} {idle free : List Int}

theorem exact_of_le (h : t.Lots next used idle free) (hpos : 0 < r) (hr : r ≤ next) :
    r.natAbs ≤ 2 ^ 53 := by
  have hhi : IntegerKind.i32.hi = 2147483647 := by decide
  have hsmall := h.small
  omega

/-- Numbers in use are neither idle nor free. -/
theorem not_mem_of_used (h : t.Lots next used idle free) {l : Int × Value} (hl : l ∈ used) :
    l.1 ∉ idle ++ free := fun hmem =>
  (List.nodup_append.mp h.nodup).2.2 _ (List.mem_map_of_mem hl) _ hmem rfl

/-- The slot of a number in use reads as its value. -/
theorem getInt_used (h : t.Lots next used idle free) {l : Int × Value} (hl : l ∈ used)
    (live : Value → Bool) : t.getInt live l.1 = l.2 := by
  unfold Table.getInt Table.getKey
  rw [h.stored l hl]
  rfl

/-- The lots stay as they are when no slot of a number and not the head of the list changes. -/
theorem congr (h : t.Lots next used idle free) (hstrong : t'.weakValues = t.weakValues)
    (hfield : t'.find? (.text Reference.freeField) = t.find? (.text Reference.freeField))
    (hslots : ∀ r, 0 < r → t'.find? (.integer r) = t.find? (.integer r)) :
    t'.Lots next used idle free := by
  have hpos {r : Int} (hr : r ∈ used.map Prod.fst ++ (idle ++ free)) : 0 < r :=
    ((h.covers r).mpr hr).1
  have hfree {r : Int} (hr : r ∈ free) : t'.find? (.integer r) = t.find? (.integer r) :=
    hslots r (hpos (List.mem_append_right _ (List.mem_append_right _ hr)))
  have hhead : t'.getText (fun _ => true) Reference.freeField =
      t.getText (fun _ => true) Reference.freeField := getKey_congr hfield
  exact {
    slots := {
      strong := hstrong.trans h.slots.strong
      field := h.slots.field.congr hfield
      free := by
        rw [hhead]
        exact h.slots.free.congr fun r hr => hfree hr
      nodup := h.slots.nodup
      old := h.slots.old
      bare := fun r hr => (h.slots.bare r hr).congr (hfree hr)
      fresh := fun r hr =>
        (h.slots.fresh r hr).congr (hslots r (Int.lt_of_lt_of_le h.positive hr)) }
    positive := h.positive
    small := h.small
    nodup := h.nodup
    covers := h.covers
    stored := fun l hl =>
      (hslots l.1 (hpos (List.mem_append_left _ (List.mem_map_of_mem hl)))).trans (h.stored l hl) }

/-- The first free number is used again. -/
theorem reuse (h : t.Lots next used idle (r :: free)) (live : Value → Bool) {v : Value}
    (hv : v.isNil = false) :
    (((t.setText Reference.freeField (t.getInt live r)).1.setInt r v).1.Lots next
      (used ++ [(r, v)]) idle free) := by
  have hslots := h.slots.congr_live live
  obtain ⟨htake, hmem⟩ := hslots.take
  have hpos : 0 < r := h.slots.free.2.1
  have hlt : r < next := h.slots.old r List.mem_cons_self
  have hexact := h.exact_of_le hpos (Int.le_of_lt hlt)
  have hperm : ((used ++ [(r, v)]).map Prod.fst ++ (idle ++ free)).Perm
      (used.map Prod.fst ++ (idle ++ r :: free)) := by
    rw [List.map_append, List.append_assoc]
    refine List.Perm.append_left _ ?_
    show (r :: (idle ++ free)).Perm (idle ++ r :: free)
    exact List.perm_middle.symm
  exact {
    slots := (htake.write hexact hlt hmem v).congr_live _
    positive := h.positive
    small := h.small
    nodup := hperm.nodup_iff.mpr h.nodup
    covers := fun i => (h.covers i).trans hperm.mem_iff.symm
    stored := fun l hl => by
      rcases List.mem_append.mp hl with hl | hl
      · have hne : r ≠ l.1 := by
          intro he
          refine h.not_mem_of_used hl (List.mem_append_right _ ?_)
          rw [he]
          exact List.mem_cons_self
        rw [Slots.find?_setInt_of_ne hexact fun he => hne (Key.integer.inj he)]
        exact (t.find?_setKey_of_ne (text_ne_integer _ _) _ _).trans (h.stored l hl)
      · obtain rfl := List.mem_singleton.mp hl
        exact Slots.find?_setInt_self hexact htake.strong hv }

/-- The next new number is used. -/
theorem grow (h : t.Lots next used idle free) {v : Value} (hv : v.isNil = false)
    (hroom : next ≤ IntegerKind.i32.hi) :
    (t.setInt next v).1.Lots (next + 1) (used ++ [(next, v)]) idle free := by
  obtain ⟨hadvance, hmem⟩ := h.slots.advance
  have hexact := h.exact_of_le h.positive (Int.le_refl _)
  have hperm : ((used ++ [(next, v)]).map Prod.fst ++ (idle ++ free)).Perm
      (next :: (used.map Prod.fst ++ (idle ++ free))) := by
    rw [List.map_append, List.append_assoc]
    exact List.perm_middle
  have hnew : next ∉ used.map Prod.fst ++ (idle ++ free) := fun hnext =>
    Int.lt_irrefl _ ((h.covers next).mpr hnext).2
  exact {
    slots := hadvance.write hexact (Int.lt_succ next) hmem v
    positive := Int.lt_trans h.positive (Int.lt_succ next)
    small := Int.add_le_add_right hroom 1
    nodup := hperm.nodup_iff.mpr (List.nodup_cons.mpr ⟨hnew, h.nodup⟩)
    covers := fun i => by
      rw [hperm.mem_iff, List.mem_cons, ← h.covers i]
      have hpos := h.positive
      omega
    stored := fun l hl => by
      rcases List.mem_append.mp hl with hl | hl
      · have hlt := ((h.covers l.1).mpr (List.mem_append_left _ (List.mem_map_of_mem hl))).2
        rw [Slots.find?_setInt_of_ne hexact fun he => Int.ne_of_gt hlt (Key.integer.inj he)]
        exact h.stored l hl
      · obtain rfl := List.mem_singleton.mp hl
        exact Slots.find?_setInt_self hexact h.slots.strong hv }

/-- A number in use becomes idle. -/
theorem retire (h : t.Lots next used idle free) {l : Int × Value} {rest : List (Int × Value)}
    (hused : used.Perm (l :: rest)) : t.Lots next rest (idle ++ [l.1]) free := by
  have hperm : (rest.map Prod.fst ++ (idle ++ [l.1] ++ free)).Perm
      (used.map Prod.fst ++ (idle ++ free)) := by
    refine List.Perm.trans ?_ ((hused.map Prod.fst).symm.append_right _)
    rw [List.append_assoc, List.map_cons, List.cons_append]
    refine List.Perm.trans ?_ List.perm_middle
    exact List.Perm.append_left _ List.perm_middle
  exact { h with
    nodup := hperm.nodup_iff.mpr h.nodup
    covers := fun i => (h.covers i).trans hperm.mem_iff.symm
    stored := fun l' hl' => h.stored l' (hused.mem_iff.mpr (List.mem_cons_of_mem _ hl')) }

/-- The first idle number is put on the free list. -/
theorem release (h : t.Lots next used (r :: idle) free) {live : Value → Bool} {below : Value}
    (hbelow : below = if (t.getText live Reference.freeField).isNil then .number Number.zero
      else t.getText live Reference.freeField) :
    ((t.setInt r below).1.setText Reference.freeField (.number (Number.ofInt r))).1.Lots next
      used idle (r :: free) := by
  have hmem : r ∈ used.map Prod.fst ++ (r :: idle ++ free) :=
    List.mem_append_right _ List.mem_cons_self
  obtain ⟨hpos, hlt⟩ := (h.covers r).mpr hmem
  have hexact := h.exact_of_le hpos (Int.le_of_lt hlt)
  have hfree : r ∉ free := fun hr =>
    (List.nodup_cons.mp (List.nodup_append.mp h.nodup).2.1).1 (List.mem_append_right _ hr)
  have hperm : (used.map Prod.fst ++ (idle ++ r :: free)).Perm
      (used.map Prod.fst ++ (r :: idle ++ free)) :=
    List.Perm.append_left _ List.perm_middle
  have hsmall : r ≤ IntegerKind.i32.hi := Int.lt_add_one_iff.mp (Int.lt_of_lt_of_le hlt h.small)
  exact {
    slots := ((h.slots.congr_live live).release hexact hpos hsmall hlt hfree hbelow).congr_live _
    positive := h.positive
    small := h.small
    nodup := hperm.nodup_iff.mpr h.nodup
    covers := fun i => (h.covers i).trans hperm.mem_iff.symm
    stored := fun l hl => by
      have hne : r ≠ l.1 := by
        intro he
        refine h.not_mem_of_used hl ?_
        rw [he]
        exact List.mem_cons_self
      refine Eq.trans (Table.find?_setKey_of_ne _ (text_ne_integer _ _) _ _) ?_
      rw [Slots.find?_setInt_of_ne hexact fun he => hne (Key.integer.inj he)]
      exact h.stored l hl }

end Table.Lots

/-! ## Writes into the registry table -/

/-- The lots of the numbers of the running machine. -/
def World.Lots (w : World) (used : List (Int × Value)) (idle free : List Int) : Prop :=
  ∃ t, w.tables.get? w.machine.registry.index = some t ∧ t.Lots w.machine.nextRef used idle free

section

variable {w : World} {r : Int} {used : List (Int × Value)} {idle free : List Int}

theorem World.Lots.nodup (h : w.Lots used idle free) :
    (used.map Prod.fst ++ (idle ++ free)).Nodup := by
  obtain ⟨t, -, hlots⟩ := h
  exact hlots.nodup

theorem World.Lots.covers (h : w.Lots used idle free) (r : Int) :
    0 < r ∧ r < w.machine.nextRef ↔ r ∈ used.map Prod.fst ++ (idle ++ free) := by
  obtain ⟨t, -, hlots⟩ := h
  exact hlots.covers r

theorem World.Lots.frees (h : w.Lots used idle free) :
    (w.table w.machine.registry).Frees w.isLive
      (w.fieldOf w.machine.registry Reference.freeField) free := by
  obtain ⟨t, ht, hlots⟩ := h
  unfold World.fieldOf
  rw [World.table_of_get? ht]
  exact (hlots.slots.congr_live w.isLive).free

/-- The slot of a number in use is read as its value, and nothing changes. -/
theorem World.Lots.readRef (h : w.Lots used idle free) {l : Int × Value} (hl : l ∈ used) :
    readRef l.1 w = (l.2, w) := by
  have hpos : 0 < l.1 := ((h.covers l.1).mpr (List.mem_append_left _ (List.mem_map_of_mem hl))).1
  obtain ⟨t, ht, hlots⟩ := h
  have hne : (l.1 == Reference.nil) = false := by
    rw [beq_eq_false_iff_ne]
    unfold Reference.nil
    omega
  have hmachine : readMachine w = (w.machine, w) := rfl
  have hslot : (w.table w.machine.registry).getInt w.isLive l.1 = l.2 := by
    rw [World.table_of_get? ht]
    exact hlots.getInt_used hl w.isLive
  unfold ScriptBridge.readRef
  rw [hne, if_neg Bool.false_ne_true, bind_of_eq hmachine]
  show ((w.table w.machine.registry).getInt w.isLive l.1, w) = (l.2, w)
  rw [hslot]

/-- A release puts the first idle number back on the free list. -/
theorem releaseRef_lots (h : w.Lots used (r :: idle) free) : ∃ w', releaseRef r w = ((), w') ∧
    w.Rewritten w' ∧ w'.machine = w.machine ∧ w'.Lots used idle (r :: free) := by
  obtain ⟨t, ht, hlots⟩ := h
  have hpos : 0 < r :=
    ((hlots.covers r).mpr (List.mem_append_right _ List.mem_cons_self)).1
  have htable := World.table_of_get? ht
  obtain ⟨below, hbelow⟩ : ∃ below, below =
    if (t.getText w.isLive Reference.freeField).isNil then Value.number Number.zero
    else t.getText w.isLive Reference.freeField := ⟨_, rfl⟩
  have hreleased := hlots.release hbelow
  have hfree : w.fieldOf w.machine.registry Reference.freeField =
      t.getText w.isLive Reference.freeField := by
    unfold World.fieldOf
    rw [htable]
  -- The tables after the two writes are variables, so that nothing computes them.
  obtain ⟨change, hchange⟩ : ∃ change, t.setInt r below = change := ⟨_, rfl⟩
  rw [hchange] at hreleased
  obtain ⟨change', hchange'⟩ : ∃ change',
    change.1.setText Reference.freeField (.number (Number.ofInt r)) = change' := ⟨_, rfl⟩
  rw [hchange'] at hreleased
  let w₁ := w.withTable w.machine.registry change.1 (change.2.flatMap Value.refs ++ below.refs)
  have hwrite : rawSetInt w.machine.registry r below w = ((), w₁) :=
    rawSetInt_eq _ _ _ _ (by rw [htable]; exact hchange)
  have ht₁ : w₁.tables.get? w.machine.registry.index = some change.1 :=
    World.get?_withTable ht _ _
  have hhead := rawSetField_eq w.machine.registry Reference.freeField (.number (Number.ofInt r)) w₁
  rw [World.table_of_get? ht₁, hchange'] at hhead
  have hread : readMachine w = (w.machine, w) := rfl
  have hget : rawGetField w.machine.registry Reference.freeField w =
      (w.fieldOf w.machine.registry Reference.freeField, w) := rfl
  have heq : releaseRef r w = rawSetField w.machine.registry Reference.freeField
      (.number (Number.ofInt r)) w₁ := by
    unfold releaseRef
    rw [if_pos hpos, bind_of_eq hread, bind_of_eq hget, hfree, ← hbelow, bind_of_eq hwrite]
  exact ⟨_, heq.trans hhead, (World.Rewritten.withTable w _ _ _).trans (.withTable w₁ _ _ _), rfl,
    change'.1, World.get?_withTable ht₁ _ _, hreleased⟩

/-- A new reference takes the first free number, or else one that was never given out. -/
theorem createRef_lots (h : w.Lots used idle free) {v : Value} (hv : v.isNil = false)
    (hroom : free = [] → w.machine.nextRef ≤ IntegerKind.i32.hi) :
    ∃ w', createRef v w = (free.head?.getD w.machine.nextRef, w') ∧ w.Rewritten w' ∧
      w'.machine.nextRef = (if free = [] then w.machine.nextRef + 1 else w.machine.nextRef) ∧
      w'.Lots (used ++ [(free.head?.getD w.machine.nextRef, v)]) idle free.tail := by
  have hfrees := h.frees
  obtain ⟨t, ht, hlots⟩ := h
  have htable := World.table_of_get? ht
  cases free with
  | nil =>
    -- Nothing is free, so that the counter gives the number and the table gets a slot.
    let w₁ : World := { w with machine.nextRef := w.machine.nextRef + 1 }
    have htake : takeReference w = (w.machine.nextRef, w₁) := takeReference_new hfrees
    obtain ⟨change, hchange⟩ : ∃ change, t.setInt w.machine.nextRef v = change := ⟨_, rfl⟩
    have hset : (w₁.table w.machine.registry).setInt w.machine.nextRef v = change :=
      htable.symm ▸ hchange
    have hwrite := rawSetInt_eq _ _ _ w₁ hset
    have hgrow := hlots.grow hv (hroom rfl)
    rw [hchange] at hgrow
    exact ⟨_, createRef_of_take hv htake hwrite,
      (World.Rewritten.nextRef w _).trans (.withTable w₁ _ _ _), rfl, change.1,
      World.get?_withTable (w := w₁) ht _ _, hgrow⟩
  | cons r rest =>
    -- Two writes: the head of the list is moved on, and the value takes the slot of the number.
    have htake := takeReference_free hfrees.1 hfrees.2.1
    have hreuse := hlots.reuse w.isLive hv
    rw [htable, rawSetField_eq, htable] at htake
    obtain ⟨change₁, hchange₁⟩ : ∃ change,
      t.setText Reference.freeField (t.getInt w.isLive r) = change := ⟨_, rfl⟩
    rw [hchange₁] at htake hreuse
    let w₁ := w.withTable w.machine.registry change₁.1
      (change₁.2.flatMap Value.refs ++ (t.getInt w.isLive r).refs)
    have ht₁ : w₁.tables.get? w.machine.registry.index = some change₁.1 :=
      World.get?_withTable ht _ _
    obtain ⟨change₂, hchange₂⟩ : ∃ change, change₁.1.setInt r v = change := ⟨_, rfl⟩
    rw [hchange₂] at hreuse
    have hset : (w₁.table w.machine.registry).setInt r v = change₂ :=
      (World.table_of_get? ht₁).symm ▸ hchange₂
    have hwrite := rawSetInt_eq _ _ _ w₁ hset
    exact ⟨_, createRef_of_take hv htake hwrite,
      (World.Rewritten.withTable w _ _ _).trans (.withTable w₁ _ _ _), rfl, change₂.1,
      World.get?_withTable ht₁ _ _, hreuse⟩

end

end ScriptBridge
