import ScriptBridge.Bridge.Session
import ScriptBridge.Proofs.Memory.Holding
import ScriptBridge.Proofs.Vm.Lots

/-!
# Numbering of references

References are made and released in any order, and in between anything may happen that leaves the
slots of the numbers and the head of the free list alone. A history remembers the live references
with the values they were made for, the released numbers that were not used again, and how many
references were made.

1. Settling, and writes under other names, leave the numbers alone (`sparesNumbers_settle`,
   `sparesNumbers_rawSetField`).
2. Along a history the live numbers are in use, none is idle, and the released ones are free
   (`World.Referencing.lots`): the lots follow its steps, as long as the numbers fit their type.
3. Hence what the machine owes to the holders of references (`referencing_allots`).
-/

namespace ScriptBridge

/-! ## A machine without references -/

/-- No number was given out yet: nothing stands under a number or the head of the free list. -/
structure World.Unreferenced (w : World) : Prop where
  table : ∃ t, w.tables.get? w.machine.registry.index = some t ∧ t.weakValues = false ∧
    t.find? (.text Reference.freeField) = none ∧ ∀ r, 0 < r → t.find? (.integer r) = none
  next : w.machine.nextRef = 1

theorem World.Unreferenced.lots {w : World} (h : w.Unreferenced) : w.Lots [] [] [] := by
  obtain ⟨t, ht, hstrong, hfield, hslots⟩ := h.table
  have hbare {k : Key} (hk : t.find? k = none) : t.IsBare k := fun e he => by
    rw [hk] at he
    cases he
  refine ⟨t, ht, ?_⟩
  rw [h.next]
  exact {
    slots := {
      strong := hstrong
      field := hbare hfield
      free := by
        unfold Table.getText Table.getKey
        rw [hfield]
        exact (by decide : Reference.head .nil ≤ 0)
      nodup := List.nodup_nil
      old := fun r hr => absurd hr List.not_mem_nil
      bare := fun r hr => absurd hr List.not_mem_nil
      fresh := fun r hr => hbare (hslots r hr) }
    positive := by decide
    small := by decide
    nodup := List.nodup_nil
    covers := fun r => by
      simp only [List.map_nil, List.append_nil, List.not_mem_nil, iff_false]
      omega
    stored := fun l hl => absurd hl List.not_mem_nil }

/-- A new machine has no references. -/
theorem World.unreferenced_start (limits : Limits) : (World.start limits).Unreferenced where
  table := ⟨{}, rfl, rfl, rfl, fun _ _ => rfl⟩
  next := rfl

/-! ## What leaves numbers alone -/

/-- The registry table is the same one and still there, holds its values as strongly as before, and
has the same under every number and under the head of the free list. -/
structure World.SparesNumbers (w w' : World) : Prop where
  registry : w'.machine.registry = w.machine.registry
  nextRef : w'.machine.nextRef = w.machine.nextRef
  table : ∀ t, w.tables.get? w.machine.registry.index = some t →
    ∃ t', w'.tables.get? w.machine.registry.index = some t' ∧ t'.weakValues = t.weakValues ∧
      t'.find? (.text Reference.freeField) = t.find? (.text Reference.freeField) ∧
      ∀ r, 0 < r → t'.find? (.integer r) = t.find? (.integer r)

namespace World.SparesNumbers

variable {w w' w₁ w₂ w₃ : World} {used : List (Int × Value)} {idle free : List Int}

/-- Whatever happens outside the registry table. -/
theorem of_same (hregistry : w'.machine.registry = w.machine.registry)
    (hnext : w'.machine.nextRef = w.machine.nextRef)
    (htable : w'.tables.get? w.machine.registry.index =
      w.tables.get? w.machine.registry.index) : w.SparesNumbers w' where
  registry := hregistry
  nextRef := hnext
  table t ht := ⟨t, htable.trans ht, rfl, rfl, fun _ _ => rfl⟩

theorem trans (h : w₁.SparesNumbers w₂) (h' : w₂.SparesNumbers w₃) : w₁.SparesNumbers w₃ where
  registry := h'.registry.trans h.registry
  nextRef := h'.nextRef.trans h.nextRef
  table t ht := by
    obtain ⟨t', ht', hstrong, hfield, hslots⟩ := h.table t ht
    rw [← h.registry] at ht' ⊢
    obtain ⟨t'', ht'', hstrong', hfield', hslots'⟩ := h'.table t' ht'
    exact ⟨t'', ht'', hstrong'.trans hstrong, hfield'.trans hfield,
      fun r hr => (hslots' r hr).trans (hslots r hr)⟩

theorem lots (h : w.SparesNumbers w') (hw : w.Lots used idle free) : w'.Lots used idle free := by
  obtain ⟨t, ht, hlots⟩ := hw
  obtain ⟨t', ht', hstrong, hfield, hslots⟩ := h.table t ht
  refine ⟨t', ?_, ?_⟩
  · rw [h.registry]
    exact ht'
  · rw [h.nextRef]
    exact hlots.congr hstrong hfield hslots

end World.SparesNumbers

/-- The registry table is held by the machine, so that looking at notes does not empty it. -/
theorem World.sparesNumbers_settle (w : World) : w.SparesNumbers w.settle := by
  refine World.settle_keeps (P := w.SparesNumbers) ?_ ?_ (.of_same rfl rfl rfl)
  · intro w' d rest _ h _
    exact h.trans (.of_same rfl rfl rfl)
  · intro w' d rest _ h hfree
    have hspares := empty_spares { w' with dropped := rest } d
    have hregistry : d.ref ≠ .table w'.machine.registry := by
      intro he
      rw [he, holds_registry] at hfree
      cases hfree
    exact h.trans (.of_same hspares.registry hspares.nextRef (hspares.tables _ hregistry))

/-- A field may be written under any other name, in the registry table as well. -/
theorem World.sparesNumbers_rawSetField (w : World) (t : TableRef) {name : String}
    (hname : name ≠ Reference.freeField) (v : Value) :
    w.SparesNumbers (rawSetField t name v w).2 := by
  rw [rawSetField_eq]
  by_cases ht : w.machine.registry = t
  · subst ht
    refine ⟨rfl, rfl, fun old hold => ?_⟩
    refine ⟨_, World.get?_withTable hold _ _, ?_⟩
    rw [World.table_of_get? hold]
    exact ⟨rfl, old.find?_setKey_of_ne (fun he => hname (Key.text.inj he)) _ _,
      fun r _ => old.find?_setKey_of_ne (Table.text_ne_integer name r) _ _⟩
  · exact .of_same rfl rfl (World.get?_withTable_of_ne ht _ _)

/-! ## Histories -/

/-- The histories of references: they are made for any values but nil, and each that is live is
released at most once. Beside the world a history has the live references with their values, the
released numbers that were not used again, and the number of references made. -/
inductive World.Referencing (start : World) :
    List (Int × Value) → List Int → Nat → World → Prop where
  | start : Referencing start [] [] 0 start
  | create {live : List (Int × Value)} {freed : List Int} {created : Nat} {w : World} {v : Value}
      (run : Referencing start live freed created w) (hv : v.isNil = false) :
      Referencing start (live ++ [((createRef v w).1, v)]) (freed.erase (createRef v w).1)
        (created + 1) (createRef v w).2
  | release {live : List (Int × Value)} {freed : List Int} {created : Nat} {w : World}
      {l : Int × Value} (run : Referencing start live freed created w) (hl : l ∈ live) :
      Referencing start (live.erase l) (l.1 :: freed) created (releaseRef l.1 w).2
  | other {live : List (Int × Value)} {freed : List Int} {created : Nat} {w w' : World}
      (run : Referencing start live freed created w) (hspares : w.SparesNumbers w') :
      Referencing start live freed created w'

/-- Along a history every number that was given out is in use or free, and no more numbers were
given out than references made. -/
theorem World.Referencing.lots {start w : World} {live : List (Int × Value)} {freed : List Int}
    {created : Nat} (run : start.Referencing live freed created w) (hstart : start.Unreferenced)
    (hcreated : created < 2 ^ 31) :
    w.Lots live [] freed ∧ w.machine.nextRef ≤ created + 1 := by
  induction run with
  | start =>
    refine ⟨hstart.lots, ?_⟩
    rw [hstart.next]
    decide
  | @create live freed created w v run hv ih =>
    obtain ⟨hlots, hnext⟩ := ih (by omega)
    -- A new number is no greater than the number of references made, and that fits.
    have hhi : IntegerKind.i32.hi = 2147483647 := by decide
    obtain ⟨w', hcreate, -, hnext', hlots'⟩ := createRef_lots hlots hv fun _ => by omega
    rw [hcreate]
    refine ⟨?_, ?_⟩
    · cases freed with
      | nil => exact hlots'
      | cons r rest =>
        show w'.Lots _ [] ((r :: rest).erase r)
        rw [List.erase_cons_head]
        exact hlots'
    · rw [hnext']
      split <;> push_cast <;> omega
  | release run hl ih =>
    -- The number is idle for a moment, between its last use and the free list.
    obtain ⟨⟨t, ht, hlots⟩, hnext⟩ := ih hcreated
    have hidle : World.Lots _ (List.erase _ _) [_] _ :=
      ⟨t, ht, hlots.retire (List.perm_cons_erase hl)⟩
    obtain ⟨w', hrelease, -, hmachine, hlots'⟩ := releaseRef_lots hidle
    rw [hrelease]
    refine ⟨hlots', ?_⟩
    rw [hmachine]
    exact hnext
  | other run hspares ih =>
    obtain ⟨hlots, hnext⟩ := ih hcreated
    refine ⟨hspares.lots hlots, ?_⟩
    rw [hspares.nextRef]
    exact hnext

/-- What a machine owes to the holders of references. The free list is a path, from its head through
the slots of the numbers on it: it names no number twice and ends. -/
structure World.Allots (w : World) (live : List (Int × Value)) (freed : List Int) (created : Nat) :
    Prop where
  positive : ∀ l ∈ live, 0 < l.1
  distinct : (live.map Prod.fst ++ freed).Nodup
  given : ∀ r, r ∈ live.map Prod.fst ++ freed ↔ 0 < r ∧ r < w.machine.nextRef
  pushes : ∀ l ∈ live, (do push (← readRef l.1) : Action Unit) w =
    ((), { w with machine := w.machine.push l.2 })
  free : (w.table w.machine.registry).Frees w.isLive
    (w.fieldOf w.machine.registry Reference.freeField) freed
  reuses : freed ≠ [] → ∀ v : Value, v.isNil = false → (createRef v w).1 ∈ freed ∧
    (createRef v w).2.machine.nextRef = w.machine.nextRef
  renews : freed = [] → created + 1 < 2 ^ 31 → ∀ v : Value, v.isNil = false →
    (createRef v w).1 = w.machine.nextRef ∧
      (createRef v w).2.machine.nextRef = w.machine.nextRef + 1

/-- References never get in each other's way, in any history of fewer than `2 ^ 31` of them. -/
theorem referencing_allots {start w : World} {live : List (Int × Value)} {freed : List Int}
    {created : Nat} (hstart : start.Unreferenced) (run : start.Referencing live freed created w)
    (hcreated : created < 2 ^ 31) : w.Allots live freed created := by
  obtain ⟨hw, hnext⟩ := run.lots hstart hcreated
  exact {
    positive := fun l hl =>
      ((hw.covers l.1).mpr (List.mem_append_left _ (List.mem_map_of_mem hl))).1
    distinct := hw.nodup
    given := fun r => (hw.covers r).symm
    pushes := fun l hl => by
      rw [bind_of_eq (hw.readRef hl)]
      rfl
    free := hw.frees
    reuses := fun hne v hv => by
      obtain ⟨w', hcreate, -, hnext', -⟩ := createRef_lots hw hv fun h => absurd h hne
      obtain ⟨r, rest, rfl⟩ := List.exists_cons_of_ne_nil hne
      rw [hcreate]
      exact ⟨List.mem_cons_self, hnext'⟩
    renews := fun hnil hroom v hv => by
      subst hnil
      have hhi : IntegerKind.i32.hi = 2147483647 := by decide
      obtain ⟨w', hcreate, -, hnext', -⟩ := createRef_lots hw hv fun _ => by omega
      rw [hcreate]
      exact ⟨rfl, hnext'⟩ }

/-- The first of two numbers is released and given out again, and then the second one is
released. -/
theorem referencing_allots_reused_number :
    ∃ (w : World) (live : List (Int × Value)) (freed : List Int) (created : Nat),
      (World.start {}).Unreferenced ∧ (World.start {}).Referencing live freed created w ∧
      live = [(1, .text "b")] ∧ freed = [2] ∧ created = 3 ∧ w.Allots live freed created := by
  have hstart := World.unreferenced_start {}
  have run₀ : (World.start {}).Referencing [] [] 0 (World.start {}) := .start
  have run₁ := run₀.create (v := .text "a") rfl
  have run₂ := run₁.create (v := .boolean true) rfl
  have run₃ := run₂.release List.mem_cons_self
  have hname : "b" ≠ Reference.freeField := by decide
  have run₄ := run₃.other (World.sparesNumbers_rawSetField _ ⟨0⟩ hname .nil)
  have run₅ := run₄.other (World.sparesNumbers_settle _)
  have run₆ := run₅.create (v := .text "b") rfl
  have run₇ := run₆.release (l := (2, .boolean true)) (by decide +kernel)
  exact ⟨_, _, _, _, hstart, run₇, by decide +kernel, by decide +kernel, rfl,
    referencing_allots hstart run₇ (by decide)⟩

end ScriptBridge
