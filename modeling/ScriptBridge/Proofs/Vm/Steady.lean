import ScriptBridge.Proofs.Memory.Settled

/-!
# Worlds that reading leaves in order

Reading values for the host makes references, objects and handles, and lets go of some of them
again. From a steady world on, all of this disturbs nothing.

* `World.Steady`: the world is settled, and the slots of the registry table are in order.
* `World.HostStep.serene`: a step outside the heap of the machine keeps a world steady.
* `createRef_serene`: making a reference keeps it steady and disturbs nothing, as long as numbers of
  references are in range.
-/

namespace ScriptBridge

/-- The world is settled, the slots of the registry table are in order, and every object with an id
was made. -/
structure World.Steady (w : World) : Prop where
  settled : w.Settled
  frame : w.machine.HasFrame
  alive : ∃ t, w.tables.get? w.machine.registry.index = some t
  slots : ∃ rs, (w.table w.machine.registry).Slots w.isLive w.machine.nextRef rs
  positive : 0 < w.machine.nextRef
  made : ∀ o, w.Exposes o → ¬ w.IsUnmade (.object o)

/-- A steady world in which nothing was disturbed, with the same stack. -/
structure World.Serene (w w' : World) : Prop where
  steady : w'.Steady
  sameStack : w.machine.SameStack w'.machine
  undisturbed : w.Undisturbed w'

namespace World

variable {w w' w₁ w₂ w₃ : World}

theorem Serene.refl (hw : w.Steady) : w.Serene w := ⟨hw, .refl _, .refl w⟩

theorem Serene.trans (h : w₁.Serene w₂) (h' : w₂.Serene w₃) : w₁.Serene w₃ :=
  ⟨h'.steady, h.sameStack.trans h'.sameStack, h.undisturbed.trans h'.undisturbed⟩

/-- A step outside the heap of the machine keeps a steady world steady. -/
theorem HostStep.serene (h : w.HostStep w') (hw : w.Steady) : w.Serene w' where
  steady := {
    settled := h.undisturbed.settled hw.settled
    frame := h.sameStack.hasFrame hw.frame
    alive := by
      rw [h.registry, h.tables]
      exact hw.alive
    slots := by
      obtain ⟨rs, hslots⟩ := hw.slots
      refine ⟨rs, ?_⟩
      rw [h.nextRef, h.registry]
      unfold World.table at hslots ⊢
      rw [h.tables]
      exact hslots.congr_live w'.isLive
    positive := by
      rw [h.nextRef]
      exact hw.positive
    made := fun o ho hu => hw.made o ((exposes_iff h.session o).mp ho) (h.unmade o hu) }
  sameStack := h.sameStack
  undisturbed := h.undisturbed

/-! ## The registry table -/

/-- A change of the registry table that keeps what other slots hold. -/
theorem Steady.extend (hw : w.Steady) (table : Table) {next : Int} {rs : List Int}
    (hmachine : w'.machine = { w.machine with nextRef := next })
    (htables : ∀ i, i ≠ w.machine.registry.index → w'.tables.get? i = w.tables.get? i)
    (htable : w'.tables.get? w.machine.registry.index = some table)
    (hsame : w' = { w with tables := w'.tables, machine := w'.machine, dropped := w'.dropped })
    (hext : (w.table w.machine.registry).Extends table) (hslots : table.Slots w.isLive next rs)
    (hnext : w.machine.nextRef ≤ next)
    (hrefs : ∀ r ∈ (w.table w.machine.registry).refs, r ∈ table.refs) : w.Serene w' := by
  have hregistry : w'.machine.registry = w.machine.registry := by rw [hmachine]
  obtain ⟨old, hold⟩ := hw.alive
  have hnew : w'.table w.machine.registry = table := table_of_get? htable
  have halive : w'.tables.contains w.machine.registry.index =
      w.tables.contains w.machine.registry.index := by
    rw [Store.contains_eq, Store.contains_eq, htable, hold]
    rfl
  have hstack : w.machine.SameStack w'.machine := by
    rw [hmachine]
    exact ⟨rfl, rfl, rfl⟩
  have hundisturbed : w.Undisturbed w' := {
    stack := fun v hv => by
      rw [hstack.stack]
      exact hv
    registry := hregistry
    tables := fun t ht => htables t.index fun hi => ht (TableRef.ext hi)
    alive := halive
    slots := by
      rw [hnew]
      exact hext
    kept := fun r hr => by
      have hr : r ∈ ((w.tables.get? w.machine.registry.index).map Table.refs).getD [] := hr
      show r ∈ ((w'.tables.get? w.machine.registry.index).map Table.refs).getD []
      rw [hold] at hr
      rw [htable]
      refine hrefs r ?_
      rw [table_of_get? hold]
      exact hr
    functions := fun _ => by rw [hsame]
    userdata := fun _ => by rw [hsame]
    roots := fun r _ hr => by
      rw [hsame]
      unfold Roots at hr ⊢
      dsimp only
      rw [hmachine]
      exact hr
    session := by
      unfold Machine.SessionLater
      rw [hmachine]
      exact Machine.SessionLater.refl w.machine
    objects := fun _ _ => by rw [hsame] }
  refine ⟨?_, hstack, hundisturbed⟩
  exact {
    settled := hundisturbed.settled hw.settled
    frame := hstack.hasFrame hw.frame
    alive := by
      rw [hregistry]
      exact ⟨table, htable⟩
    slots := by
      rw [hregistry, hnew, hmachine]
      exact ⟨rs, hslots.congr_live w'.isLive⟩
    positive := by
      rw [hmachine]
      exact Int.lt_of_lt_of_le hw.positive hnext
    made := fun o ho hu => by
      rw [hsame] at hu
      exact hw.made o ((exposes_iff hundisturbed.session o).mp ho) hu }

end World

/-! ## Making a reference -/

theorem nextRef_takeReference (w : World) :
    w.machine.nextRef ≤ (takeReference w).2.machine.nextRef := by
  by_cases hfree : 0 < Reference.head (w.fieldOf w.machine.registry Reference.freeField)
  · rw [takeReference_free rfl hfree, rawSetField_eq]
    exact Int.le_refl _
  · rw [takeReference_new (Int.not_lt.mp hfree)]
    exact Int.le_add_one (Int.le_refl _)

/-- Some world follows a write. It is a variable here, so that no step of a proof computes it. -/
theorem rawSetInt_world (t : TableRef) (n : Int) (v : Value) (w : World) :
    ∃ w', rawSetInt t n v w = ((), w') ∧ w'.machine = w.machine := by
  obtain ⟨change, hchange⟩ : ∃ change, (w.table t).setInt n v = change := ⟨_, rfl⟩
  exact ⟨_, rawSetInt_eq t n v w hchange, rfl⟩

theorem createRef_nil {v : Value} (hv : v.isNil = true) (w : World) :
    createRef v w = (Reference.nil, w) := by
  unfold createRef
  rw [if_pos hv]
  rfl

theorem nextRef_createRef (v : Value) (w : World) :
    w.machine.nextRef ≤ (createRef v w).2.machine.nextRef := by
  cases hv : v.isNil with
  | true => rw [createRef_nil hv]
  | false =>
    have htake := nextRef_takeReference w
    cases hr : takeReference w with | mk r w₁
    obtain ⟨w₂, hwrite, hmachine⟩ := rawSetInt_world w₁.machine.registry r v w₁
    rw [hr] at htake
    rw [createRef_of_take hv hr hwrite, hmachine]
    exact htake

/-- A number that was taken: it is not on the free list, and its slot holds nothing. -/
structure World.Takes (w : World) (r : Int) : Prop where
  slots : ∃ rs, (w.table w.machine.registry).Slots w.isLive w.machine.nextRef rs ∧ r ∉ rs
  positive : 0 < r
  old : r < w.machine.nextRef
  bare : (w.table w.machine.registry).IsBare (.integer r)

namespace World

variable {w : World}

theorem takeReference_serene (hw : w.Steady) :
    w.Serene (takeReference w).2 ∧ (takeReference w).2.Takes (takeReference w).1 := by
  obtain ⟨rs, hslots⟩ := hw.slots
  obtain ⟨old, hold⟩ := hw.alive
  cases rs with
  | nil =>
    -- Nothing is free, so that the number is new and the table stays as it is.
    have hempty : Reference.head (w.fieldOf w.machine.registry Reference.freeField) ≤ 0 :=
      hslots.free
    obtain ⟨hadvanced, hmem⟩ := hslots.advance
    rw [takeReference_new hempty]
    refine ⟨hw.extend (w.table w.machine.registry) rfl (fun _ _ => rfl) ?_ rfl
      (.refl _) hadvanced (Int.le_add_one (Int.le_refl _)) fun _ hr => hr, ?_⟩
    · show w.tables.get? w.machine.registry.index = some (w.table w.machine.registry)
      rw [table_of_get? hold]
      exact hold
    · exact ⟨⟨[], hadvanced, hmem⟩, hw.positive, Int.lt_succ _, hslots.fresh _ (Int.le_refl _)⟩
  | cons r rs =>
    -- The first free number is taken, and the one that its slot names comes first.
    obtain ⟨hhead, hpos, hnil, -⟩ := hslots.free
    obtain ⟨htaken, hmem⟩ := hslots.take
    let table := ((w.table w.machine.registry).setText Reference.freeField
      ((w.table w.machine.registry).getInt w.isLive r)).1
    rw [takeReference_free hhead hpos, rawSetField_eq]
    have hserene : w.Serene (w.withTable w.machine.registry table
        (((w.table w.machine.registry).setText Reference.freeField
          ((w.table w.machine.registry).getInt w.isLive r)).2.flatMap Value.refs ++
            ((w.table w.machine.registry).getInt w.isLive r).refs)) := by
      refine hw.extend table rfl
        (fun i hi => Store.get?_modify_of_ne _ _ (Ne.symm hi)) ?_ rfl
        (Table.extends_setFree _ _) htaken (Int.le_refl _) fun x hx => ?_
      · show (w.tables.modify w.machine.registry.index fun _ => table).get?
          w.machine.registry.index = some table
        rw [Store.get?_modify, if_pos rfl, hold]
        rfl
      · exact Table.refs_setKey hslots.field _ hnil hx
    refine ⟨hserene, ?_⟩
    have htable := table_withTable ⟨old, hold⟩ table
      (((w.table w.machine.registry).setText Reference.freeField
        ((w.table w.machine.registry).getInt w.isLive r)).2.flatMap Value.refs ++
          ((w.table w.machine.registry).getInt w.isLive r).refs)
    exact {
      slots := by
        refine ⟨rs, ?_, hmem⟩
        rw [hserene.undisturbed.registry, htable]
        exact htaken.congr_live _
      positive := hpos
      old := hslots.old r List.mem_cons_self
      bare := by
        rw [hserene.undisturbed.registry, htable]
        exact (hslots.bare r List.mem_cons_self).congr
          (Table.find?_setKey_of_ne _ (Table.text_ne_integer _ r) _ _) }

/-- A value is written under a number that was taken for it. -/
theorem Takes.write (hw : w.Steady) {r : Int} (h : w.Takes r)
    (hlimit : w.machine.nextRef ≤ IntegerKind.i32.hi) {v : Value} (hv : v.isNil = false)
    {w' : World} (hwrite : rawSetInt w.machine.registry r v w = ((), w')) : w.Serene w' := by
  obtain ⟨rs, hslots, hmem⟩ := h.slots
  obtain ⟨old, hold⟩ := hw.alive
  have hexact : r.natAbs ≤ 2 ^ 53 := by
    have hpos := h.positive
    have hold := h.old
    have hhi : IntegerKind.i32.hi = 2147483647 := by decide
    omega
  obtain ⟨change, hchange⟩ : ∃ change, (w.table w.machine.registry).setInt r v = change :=
    ⟨_, rfl⟩
  have hext := Table.Slots.extends_write hexact h.bare v
  have hwritten := hslots.write hexact h.old hmem v
  have hrefs {x : Ref} (hx : x ∈ (w.table w.machine.registry).refs) :
      x ∈ ((w.table w.machine.registry).setInt r v).1.refs := by
    rw [Table.setInt_eq _ hexact]
    exact Table.refs_setKey h.bare _ hv hx
  rw [hchange] at hext hwritten hrefs
  obtain rfl := (Prod.mk.inj ((rawSetInt_eq w.machine.registry r v w hchange).symm.trans hwrite)).2
  refine hw.extend change.1 rfl
    (fun i hi => Store.get?_modify_of_ne _ _ (Ne.symm hi)) ?_ rfl hext hwritten (Int.le_refl _)
    fun _ hx => hrefs hx
  show (w.tables.modify w.machine.registry.index fun _ => change.1).get?
    w.machine.registry.index = some change.1
  rw [Store.get?_modify, if_pos rfl, hold]
  rfl

end World

/-- Making a reference disturbs nothing. -/
theorem createRef_serene {w : World} (hw : w.Steady) (v : Value)
    (hlimit : (createRef v w).2.machine.nextRef ≤ IntegerKind.i32.hi) :
    w.Serene (createRef v w).2 := by
  cases hv : v.isNil with
  | true =>
    rw [createRef_nil hv]
    exact .refl hw
  | false =>
    obtain ⟨hserene, htakes⟩ := World.takeReference_serene hw
    cases hr : takeReference w with | mk r w₁
    rw [hr] at hserene htakes
    obtain ⟨w₂, hwrite, hmachine⟩ := rawSetInt_world w₁.machine.registry r v w₁
    rw [createRef_of_take hv hr hwrite] at hlimit ⊢
    rw [hmachine] at hlimit
    exact hserene.trans (htakes.write hserene.steady hlimit hv hwrite)

end ScriptBridge
