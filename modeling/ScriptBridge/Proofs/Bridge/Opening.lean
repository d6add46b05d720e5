import ScriptBridge.Bridge.Session
import ScriptBridge.Proofs.Bridge.Places
import ScriptBridge.Proofs.Stack.Untouched

/-!
# Opening a session

A session that was just opened is set up for proxies: its registry table has the metatables, each of
these has the finalizer, and its table of proxies is empty and weak. The tables are filled one name
after the other; `World.Wrote` says what writing names into one table leaves as it was.
-/

namespace ScriptBridge

variable {w w₁ w₂ w₃ : World} {t : TableRef} {name : String} {v : Value}

/-- What a machine is when a session was attached to it. -/
def Machine.attached (m : Machine) (options : Options)
    (adapters : AdapterPolicy) (objects : TableRef) : Machine :=
  { m with appData := .session, session := some { id := m.id, options, adapters, objects } }

/-! ## What tables have under names -/

namespace World

/-- A table has a value under a name, and holds it. -/
def Has (w : World) (t : TableRef) (name : String) (v : Value) : Prop :=
  ∃ table, w.tables.get? t.index = some table ∧
    ∃ e, table.find? (.text name) = some e ∧ e.slot = .strong v

/-- A table is there and holds its values. -/
def IsStrong (w : World) (t : TableRef) : Prop :=
  ∃ table, w.tables.get? t.index = some table ∧ table.weakValues = false

/-- Some names were written into a table, and tables and functions may have been made. -/
structure Wrote (t : TableRef) (names : List String) (w w' : World) : Prop where
  tables : ∀ i table, i ≠ t.index → w.tables.get? i = some table → w'.tables.get? i = some table
  fields : ∀ name v, name ∉ names → w.Has t name v → w'.Has t name v
  strong : w.IsStrong t → w'.IsStrong t
  functions : ∀ i f, w.functions.get? i = some f → w'.functions.get? i = some f
  next : w.tables.next ≤ w'.tables.next
  machine : w'.machine = w.machine
  userdata : w'.userdata = w.userdata
  unheld : ∀ u, w'.HoldsUserdata u → w.HoldsUserdata u

theorem Has.lt_next (h : w.Has t name v) : t.index < w.tables.next := by
  obtain ⟨table, ht, -⟩ := h
  exact w.tables.lt_next ht

theorem IsStrong.lt_next (h : w.IsStrong t) : t.index < w.tables.next := by
  obtain ⟨table, ht, -⟩ := h
  exact w.tables.lt_next ht

namespace Wrote

variable {names names' : List String}

theorem refl (w : World) (t : TableRef) : w.Wrote t [] w where
  tables _ _ _ h := h
  fields _ _ _ h := h
  strong h := h
  functions _ _ h := h
  next := Nat.le_refl _
  machine := rfl
  userdata := rfl
  unheld _ h := h

theorem trans (h : w₁.Wrote t names w₂) (h' : w₂.Wrote t names' w₃) :
    w₁.Wrote t (names ++ names') w₃ where
  tables i table hi ht := h'.tables i table hi (h.tables i table hi ht)
  fields name v hname hv :=
    h'.fields name v (fun hn => hname (List.mem_append_right _ hn))
      (h.fields name v (fun hn => hname (List.mem_append_left _ hn)) hv)
  strong hs := h'.strong (h.strong hs)
  functions i f hf := h'.functions i f (h.functions i f hf)
  next := Nat.le_trans h.next h'.next
  machine := h'.machine.trans h.machine
  userdata := h'.userdata.trans h.userdata
  unheld u hu := h.unheld u (h'.unheld u hu)

/-- What another table has stays. -/
theorem has_of_ne (h : w₁.Wrote t names w₂) {t' : TableRef} (ht : t' ≠ t) (hv : w₁.Has t' name v) :
    w₂.Has t' name v := by
  obtain ⟨table, htable, he⟩ := hv
  exact ⟨table, h.tables _ _ (fun hi => ht (TableRef.ext hi)) htable, he⟩

theorem strong_of_ne (h : w₁.Wrote t names w₂) {t' : TableRef} (ht : t' ≠ t)
    (hs : w₁.IsStrong t') : w₂.IsStrong t' := by
  obtain ⟨table, htable, he⟩ := hs
  exact ⟨table, h.tables _ _ (fun hi => ht (TableRef.ext hi)) htable, he⟩

/-- Names written into a table that was not there before. -/
theorem of_new {t' : TableRef} (h : w₁.Wrote t' names w₂) (ht : w₁.tables.get? t'.index = none) :
    w₁.Wrote t [] w₂ := by
  have htables (i : Nat) (table : Table) (hi : w₁.tables.get? i = some table) :
      w₂.tables.get? i = some table := by
    refine h.tables i table (fun he => ?_) hi
    rw [he, ht] at hi
    cases hi
  exact { h with
    tables := fun i table _ hi => htables i table hi
    fields := fun name v _ ⟨table, htable, he⟩ => ⟨table, htables _ _ htable, he⟩
    strong := fun ⟨table, htable, he⟩ => ⟨table, htables _ _ htable, he⟩ }

end Wrote

/-! ## Single steps -/

/-- A step that makes tables which hold no userdata. -/
theorem wrote_tables (w : World) (t : TableRef) {tables : Store Table} {dropped : List Dropped}
    (hold : ∀ i table, w.tables.get? i = some table → tables.get? i = some table)
    (hnext : w.tables.next ≤ tables.next)
    (hnew : ∀ i table u, tables.get? i = some table → Ref.userdata u ∈ table.refs →
      w.tables.get? i = some table) :
    w.Wrote t [] { w with tables, dropped } where
  tables i table _ hi := hold i table hi
  fields _ _ _ := fun ⟨table, htable, he⟩ => ⟨table, hold _ _ htable, he⟩
  strong := fun ⟨table, htable, he⟩ => ⟨table, hold _ _ htable, he⟩
  functions _ _ h := h
  next := hnext
  machine := rfl
  userdata := rfl
  unheld u hu := by
    obtain hm | hk | hh | ⟨t', ht'⟩ := hu
    · exact .inl hm
    · exact .inr (.inl hk)
    · exact .inr (.inr (.inl hh))
    · have ht' : Ref.userdata u ∈ ((tables.get? t'.index).map Table.refs).getD [] := ht'
      cases htable : tables.get? t'.index with
      | none =>
        rw [htable] at ht'
        exact absurd ht' List.not_mem_nil
      | some table =>
        rw [htable] at ht'
        refine .inr (.inr (.inr ⟨t', ?_⟩))
        show Ref.userdata u ∈ ((w.tables.get? t'.index).map Table.refs).getD []
        rw [hnew _ _ u htable ht']
        exact ht'

/-- An empty table is made. -/
theorem wrote_newTable (w : World) (t : TableRef) :
    w.Wrote t [] (newTable {} w).2 := by
  refine w.wrote_tables t (fun i table hi => ?_) ?_ fun i table u hi hu => ?_
  · rw [Store.get?_add_of_lt _ _ (w.tables.lt_next hi)]
    exact hi
  · rw [Store.next_add]
    exact Nat.le_succ _
  · rw [Store.get?_add] at hi
    split at hi
    · cases hi
      exact absurd hu List.not_mem_nil
    · exact hi

theorem isStrong_newTable (w : World) : (newTable {} w).2.IsStrong ⟨w.tables.next⟩ :=
  ⟨{}, w.tables.get?_add_next {}, rfl⟩

theorem wrote_newFunction (w : World) (t : TableRef) (f : Function) :
    w.Wrote t [] (newFunction f w).2 :=
  { Wrote.refl w t with
    functions := fun i f' hi => by
      show (w.functions.add f).get? i = some f'
      rw [Store.get?_add_of_lt _ _ (w.functions.lt_next hi)]
      exact hi
    unheld := fun u hu => hu.of_same rfl rfl rfl (List.Subset.refl _) rfl }

/-- What a table holds after a write was written or held before. -/
theorem mem_refs_setText {table : Table} {r : Ref}
    (h : r ∈ (table.setText name v).1.refs) : r ∈ table.refs ∨ r ∈ v.refs := by
  obtain h | h := List.mem_append.mp h
  · obtain ⟨e, he, hr⟩ := List.mem_flatMap.mp h
    have hold (he : e ∈ table.entries) : r ∈ table.refs :=
      List.mem_append_left _ (List.mem_flatMap.mpr ⟨e, he, hr⟩)
    unfold Table.setText Table.setKey at he
    dsimp only at he
    split at he
    · exact .inl (hold (List.mem_of_mem_eraseP he))
    · obtain rfl | he := Table.eq_or_mem_of_putEntry he
      · obtain hr | hr := List.mem_append.mp hr
        · exact absurd hr List.not_mem_nil
        · obtain ⟨v', hv', hin⟩ := List.mem_flatMap.mp hr
          have hv' : v' ∈ (table.slotFor v).kept := hv'
          have hkept : (table.slotFor v).kept = [v] ∨ (table.slotFor v).kept = [] := by
            unfold Table.slotFor
            split
            · split
              · exact .inr rfl
              · exact .inl rfl
            · split
              · exact .inr rfl
              · exact .inl rfl
            · exact .inl rfl
          obtain hkept | hkept := hkept <;> rw [hkept] at hv'
          · exact .inr (List.mem_singleton.mp hv' ▸ hin)
          · cases hv'
      · exact .inl (hold he)
  · exact .inl (List.mem_append_right _ h)

/-- A value other than a userdata is written under a name. -/
theorem wrote_rawSetField (w : World) (t : TableRef) (name : String) {v : Value}
    (hv : ∀ u, v ≠ .userdata u) : w.Wrote t [name] (rawSetField t name v w).2 := by
  rw [rawSetField_eq]
  generalize ((w.table t).setText name v).2.flatMap Value.refs ++ v.refs = refs
  exact {
    tables := fun i table hi ht =>
      (Store.get?_modify_of_ne _ _ (Ne.symm hi)).trans ht
    fields := fun name' v' hname ⟨table, ht, e, he, hslot⟩ => by
      have htable : w.table t = table := by
        unfold World.table
        rw [ht]
        rfl
      refine ⟨(table.setText name v).1, ?_, e, ?_, hslot⟩
      · show (w.tables.modify t.index fun _ => ((w.table t).setText name v).1).get? t.index = _
        rw [Store.get?_modify, if_pos rfl, ht, htable]
        rfl
      · refine (table.find?_setKey_of_ne (fun hk => ?_) _ _).trans he
        exact hname (List.mem_singleton.mpr (Key.text.inj hk).symm)
    strong := fun ⟨table, ht, hstrong⟩ => by
      have htable : w.table t = table := by
        unfold World.table
        rw [ht]
        rfl
      refine ⟨(table.setText name v).1, ?_, hstrong⟩
      show (w.tables.modify t.index fun _ => ((w.table t).setText name v).1).get? t.index = _
      rw [Store.get?_modify, if_pos rfl, ht, htable]
      rfl
    functions := fun _ _ h => h
    next := Nat.le_of_eq (Store.next_modify _ _ _).symm
    machine := rfl
    userdata := rfl
    unheld := fun u hu => by
      obtain hu | hu := hu.of_withTable
      · exact hu
      · obtain hu | hu := mem_refs_setText hu
        · have hu : Ref.userdata u ∈ ((w.tables.get? t.index).getD {}).refs := hu
          cases ht : w.tables.get? t.index with
          | none =>
            rw [ht] at hu
            exact absurd hu List.not_mem_nil
          | some table =>
            rw [ht] at hu
            refine .inr (.inr (.inr ⟨t, ?_⟩))
            show Ref.userdata u ∈ ((w.tables.get? t.index).map Table.refs).getD []
            rw [ht]
            exact hu
        · exact absurd (Value.userdata_mem_refs.mp hu) (hv u) }

theorem next_rawSetField (w : World) (t : TableRef) (name : String) (v : Value) :
    (rawSetField t name v w).2.tables.next = w.tables.next := by
  rw [rawSetField_eq]
  exact Store.next_modify _ _ _

/-- What was written is there. -/
theorem has_rawSetField (h : w.IsStrong t) (name : String) {v : Value} (hv : v.isNil = false) :
    (rawSetField t name v w).2.Has t name v := by
  obtain ⟨table, ht, hstrong⟩ := h
  have htable : w.table t = table := by
    unfold World.table
    rw [ht]
    rfl
  rw [rawSetField_eq, htable]
  refine ⟨(table.setText name v).1, ?_, _, table.find?_setKey_self _ _ hv, ?_⟩
  · show (w.tables.modify t.index fun _ => (table.setText name v).1).get? t.index = _
    rw [Store.get?_modify, if_pos rfl, ht]
    rfl
  · exact Table.slotFor_of_strong hstrong v

/-! ## Metatables -/

/-- The table has a function for each of the handlers. -/
def HasHandlers (w : World) (t : TableRef) (handlers : List (String × String × Handler)) : Prop :=
  ∀ h ∈ handlers, ∃ f, w.Has t h.1 (.function f) ∧
    w.functions.get? f.index = some ⟨.named h.2.1, .handler h.2.2⟩

theorem HasHandlers.wrote {handlers : List (String × String × Handler)} {names : List String}
    (h : w₁.HasHandlers t handlers) (hw : w₁.Wrote t names w₂)
    (hnames : ∀ x ∈ handlers, x.1 ∉ names) : w₂.HasHandlers t handlers := by
  intro x hx
  obtain ⟨f, hf, hcode⟩ := h x hx
  exact ⟨f, hw.fields _ _ (hnames x hx) hf, hw.functions _ _ hcode⟩

theorem HasHandlers.wrote_of_ne {handlers : List (String × String × Handler)} {names : List String}
    {t' : TableRef} (h : w₁.HasHandlers t' handlers) (hw : w₁.Wrote t names w₂) (ht : t' ≠ t) :
    w₂.HasHandlers t' handlers := by
  intro x hx
  obtain ⟨f, hf, hcode⟩ := h x hx
  exact ⟨f, hw.has_of_ne ht hf, hw.functions _ _ hcode⟩

/-- Handlers with names of their own are written into a table. -/
theorem writeHandlers_wrote (handlers : List (String × String × Handler)) (h : w.IsStrong t)
    (hnames : (handlers.map (·.1)).Nodup) :
    w.Wrote t (handlers.map (·.1)) (writeHandlers t handlers w).2 ∧
      (writeHandlers t handlers w).2.HasHandlers t handlers := by
  induction handlers generalizing w with
  | nil => exact ⟨.refl w t, fun x hx => absurd hx List.not_mem_nil⟩
  | cons x rest ih =>
    obtain ⟨field, label, handler⟩ := x
    rw [List.map_cons, List.nodup_cons] at hnames
    let f : FunctionRef := ⟨w.functions.next⟩
    let w₁ : World := (newFunction ⟨.named label, .handler handler⟩ w).2
    let w₂ : World := (rawSetField t field (.function f) w₁).2
    have hw₁ : w.Wrote t [] w₁ := wrote_newFunction w t _
    have hw₂ : w₁.Wrote t [field] w₂ := wrote_rawSetField w₁ t field (fun u hu => nomatch hu)
    have hrun : (writeHandlers t ((field, label, handler) :: rest) w).2 =
        (writeHandlers t rest w₂).2 := rfl
    obtain ⟨hrest, hhandlers⟩ := ih (w := w₂) (hw₂.strong (hw₁.strong h)) hnames.2
    rw [hrun]
    refine ⟨(hw₁.trans hw₂).trans hrest, fun y hy => ?_⟩
    obtain rfl | hy := List.mem_cons.mp hy
    · refine ⟨f, hrest.fields _ _ hnames.1 (has_rawSetField (hw₁.strong h) field rfl), ?_⟩
      exact hrest.functions _ _ (hw₂.functions _ _ (w.functions.get?_add_next _))
    · exact hhandlers y hy

/-- The registry table has a table with these handlers under a name, and it is a new one. -/
def HasMetatable (w : World) (registry : TableRef) (bound : Nat)
    (m : String × List (String × String × Handler)) : Prop :=
  ∃ t : TableRef, bound ≤ t.index ∧ w.Has registry m.1 (.table t) ∧ w.HasHandlers t m.2

/-- Metatables with names of their own are written into the registry table. -/
theorem writeMetatables_wrote (registry : TableRef)
    (metatables : List (String × List (String × String × Handler))) (h : w.IsStrong registry)
    {bound : Nat} (hbound : bound ≤ w.tables.next)
    (hnames : (metatables.map (·.1)).Nodup)
    (hfields : ∀ m ∈ metatables, (m.2.map (·.1)).Nodup) :
    w.Wrote registry (metatables.map (·.1)) (writeMetatables registry metatables w).2 ∧
      ∀ m ∈ metatables,
        (writeMetatables registry metatables w).2.HasMetatable registry bound m := by
  induction metatables generalizing w with
  | nil => exact ⟨.refl w registry, fun x hx => absurd hx List.not_mem_nil⟩
  | cons m rest ih =>
    obtain ⟨name, handlers⟩ := m
    rw [List.map_cons, List.nodup_cons] at hnames
    let t : TableRef := ⟨w.tables.next⟩
    let w₁ : World := (newTable {} w).2
    let w₂ : World := (writeHandlers t handlers w₁).2
    let w₃ : World := (rawSetField registry name (.table t) w₂).2
    have ht : t ≠ registry := by
      rintro he
      have hlt := h.lt_next
      rw [← he] at hlt
      exact Nat.lt_irrefl _ hlt
    have hnew : w.tables.get? t.index = none := w.tables.get?_eq_none (Nat.le_refl _)
    obtain ⟨hwrote, hhandlers⟩ := writeHandlers_wrote (w := w₁) (t := t) handlers
      (isStrong_newTable w) (hfields _ List.mem_cons_self)
    have hw₂ : w.Wrote registry [] w₂ := ((wrote_newTable w t).trans hwrote).of_new hnew
    have hw₃ : w₂.Wrote registry [name] w₃ :=
      wrote_rawSetField w₂ registry name (fun u hu => nomatch hu)
    have hrun : (writeMetatables registry ((name, handlers) :: rest) w).2 =
        (writeMetatables registry rest w₃).2 := rfl
    obtain ⟨hrest, hmetatables⟩ := ih (w := w₃) (hw₃.strong (hw₂.strong h))
      (Nat.le_trans hbound (Nat.le_trans hw₂.next hw₃.next)) hnames.2
      fun m hm => hfields m (List.mem_cons_of_mem _ hm)
    rw [hrun]
    refine ⟨(hw₂.trans hw₃).trans hrest, fun m hm => ?_⟩
    obtain rfl | hm := List.mem_cons.mp hm
    · exact ⟨t, hbound, hrest.fields _ _ hnames.1 (has_rawSetField (hw₂.strong h) name rfl),
        (hhandlers.wrote_of_ne hw₃ ht).wrote_of_ne hrest ht⟩
    · exact hmetatables m hm

/-! ## The table of proxies -/

/-- A table without entries that holds its values weakly. -/
def HasWeakTable (w : World) (t : TableRef) : Prop :=
  ∃ table, w.tables.get? t.index = some table ∧ table.entries = [] ∧ table.weakValues = true

theorem newWeakTable_wrote (w : World) (t : TableRef) :
    (newWeakTable w).1 = ⟨w.tables.next + 1⟩ ∧ w.Wrote t [] (newWeakTable w).2 ∧
      (newWeakTable w).2.HasWeakTable ⟨w.tables.next + 1⟩ := by
  let mode : TableRef := ⟨w.tables.next⟩
  let objects : TableRef := ⟨w.tables.next + 1⟩
  let w₁ : World := (newTable {} w).2
  let w₂ : World := (rawSetField mode "__mode" (.text "v") w₁).2
  let w₃ : World := (newTable {} w₂).2
  have hw₁ : w.Wrote mode [] w₁ := wrote_newTable w mode
  have hw₂ : w₁.Wrote mode ["__mode"] w₂ := wrote_rawSetField w₁ mode _ fun u hu => nomatch hu
  have hwrote₂ : w.Wrote t [] w₂ :=
    (hw₁.trans hw₂).of_new (w.tables.get?_eq_none (Nat.le_refl _))
  have hmode : w₂.Has mode "__mode" (.text "v") :=
    has_rawSetField (isStrong_newTable w) "__mode" rfl
  have hnext : w₂.tables.next = w.tables.next + 1 :=
    (next_rawSetField w₁ mode _ _).trans (w.tables.next_add {})
  have hread : w₃.fieldOf mode "__mode" = .text "v" := by
    obtain ⟨table, htable, e, he, hslot⟩ := hmode
    refine fieldOf_of_find? ?_ he hslot
    show (w₂.tables.add {}).get? mode.index = some table
    rw [Store.get?_add_of_lt _ _ (w₂.tables.lt_next htable)]
    exact htable
  have hne : (mode == objects) = false := by
    refine beq_eq_false_iff_ne.mpr fun he => ?_
    have he : w.tables.next = w.tables.next + 1 := congrArg TableRef.index he
    omega
  let table : Table := ({} : Table).setMetatable (some mode) (.text "v")
  have hempty : w₃.table objects = {} := by
    show ((w₂.tables.add {}).get? objects.index).getD {} = {}
    rw [Store.get?_add]
    show (if w.tables.next + 1 = w₂.tables.next then _ else _ : Option Table).getD {} = {}
    rw [if_pos hnext.symm]
    rfl
  have hset : setTableMetatable objects (some mode) w₃ =
      ((), { w₃ with tables := w₃.tables.modify objects.index fun _ => table }) := by
    unfold setTableMetatable
    rw [bind_of_eq (get_eq w₃)]
    dsimp only
    rw [hne, if_neg Bool.false_ne_true, hread, hempty]
    rfl
  have hrun : newWeakTable w =
      (objects, { w₃ with tables := w₃.tables.modify objects.index fun _ => table }) := by
    have htail : (do setTableMetatable objects (some mode); return objects : Action TableRef) w₃ =
        (objects, { w₃ with tables := w₃.tables.modify objects.index fun _ => table }) := by
      rw [bind_of_eq hset]
      rfl
    have hhead : newWeakTable w =
        (do setTableMetatable ⟨w₂.tables.next⟩ (some mode); return ⟨w₂.tables.next⟩ :
          Action TableRef) w₃ := rfl
    rw [hhead, hnext]
    exact htail
  have hget (i : Nat) : (w₃.tables.modify objects.index fun _ => table).get? i =
      if i = objects.index then some table else w₂.tables.get? i := by
    rw [Store.get?_modify]
    show (if objects.index = i then ((w₂.tables.add {}).get? i).map _ else
      (w₂.tables.add {}).get? i) = _
    rw [Store.get?_add, hnext]
    by_cases hi : i = w.tables.next + 1
    · rw [if_pos hi.symm, if_pos hi, if_pos hi]
      rfl
    · rw [if_neg (Ne.symm hi), if_neg hi, if_neg hi]
  rw [hrun]
  refine ⟨rfl, hwrote₂.trans (w₂.wrote_tables t (fun i old hi => ?_) ?_ fun i new u hi hu => ?_),
    table, ?_, rfl, rfl⟩
  · have hlt : i < w.tables.next + 1 := hnext ▸ w₂.tables.lt_next hi
    rw [hget, if_neg (Nat.ne_of_lt hlt)]
    exact hi
  · show _ ≤ (w₃.tables.modify _ _).next
    rw [Store.next_modify]
    show _ ≤ (w₂.tables.add {}).next
    rw [Store.next_add]
    exact Nat.le_succ _
  · rw [hget] at hi
    split at hi
    · cases hi
      exact absurd hu (by simp [table, Table.setMetatable, Table.refs])
    · exact hi
  · exact (hget _).trans (if_pos rfl)

/-! ## Installing -/

theorem metatables_nodup : (metatables.map (·.1)).Nodup := by decide

theorem handlers_nodup : ∀ m ∈ metatables, (m.2.map (·.1)).Nodup := by decide

/-- An action that gives nothing is its effect; stated once, so that no proof computes it. -/
theorem run_unit (x : Action Unit) (w : World) : x w = ((), (x w).2) := rfl

theorem attach_eq (globals : Bool) (t : TableRef) (handlers : List (String × String × Handler))
    (f : Machine → Machine) (w : World) :
    (do
      if globals then writeHandlers t handlers
      modifyMachine f : Action Unit) w =
        let w' := if globals then (writeHandlers t handlers w).2 else w
        ((), { w' with machine := f w'.machine }) := by
  cases globals <;> rfl

/-- What the session puts into a machine. -/
structure Installed (w w' : World) (objects : TableRef) : Prop where
  machine : w'.machine = w.machine
  userdata : w'.userdata = w.userdata
  unheld : ∀ u, w'.HoldsUserdata u → w.HoldsUserdata u
  metatables : ∀ m ∈ metatables, w'.HasMetatable w.machine.registry w.tables.next m
  objects : w'.HasWeakTable objects

theorem install_installed (options : Options) (adapters : AdapterPolicy)
    (hregistry : w.IsStrong w.machine.registry) (hglobals : w.IsStrong w.machine.globals)
    (hne : w.machine.registry ≠ w.machine.globals) :
    ∃ w', (install options adapters w).2 =
        { w' with machine := w'.machine.attached options adapters ⟨w.tables.next + 1⟩ } ∧
      w.Installed w' ⟨w.tables.next + 1⟩ := by
  let registry : TableRef := w.machine.registry
  let globals : TableRef := w.machine.globals
  let objects : TableRef := ⟨w.tables.next + 1⟩
  let w₁ : World := (newWeakTable w).2
  let w₂ : World := (rawSetField registry proxiesName (.table objects) w₁).2
  let w₃ : World := (writeMetatables registry ScriptBridge.metatables w₂).2
  obtain ⟨hobjects, hw₁, hweak₁⟩ := newWeakTable_wrote w registry
  have hw₂ : w₁.Wrote registry [proxiesName] w₂ :=
    wrote_rawSetField w₁ registry _ fun u hu => nomatch hu
  have hbound : w.tables.next ≤ w₂.tables.next := Nat.le_trans hw₁.next hw₂.next
  obtain ⟨hw₃, hmetatables⟩ := writeMetatables_wrote (w := w₂) registry ScriptBridge.metatables
    (hw₂.strong (hw₁.strong hregistry)) hbound metatables_nodup handlers_nodup
  have hwrote : w.Wrote registry _ w₃ := (hw₁.trans hw₂).trans hw₃
  have hweak : w₃.HasWeakTable objects := by
    obtain ⟨table, htable, hentries⟩ := hweak₁
    have hne : objects.index ≠ registry.index := by
      have hlt := hregistry.lt_next
      show w.tables.next + 1 ≠ w.machine.registry.index
      omega
    exact ⟨table, hw₃.tables _ _ hne (hw₂.tables _ _ hne htable), hentries⟩
  have hrun : newWeakTable w = (objects, w₁) := Prod.ext hobjects rfl
  have hglobals₃ : w₃.IsStrong globals := hwrote.strong_of_ne (Ne.symm hne) hglobals
  let w₄ : World :=
    if options.registerGlobals then (writeHandlers globals globalHandlers w₃).2 else w₃
  have hw₄ : ∃ names, w₃.Wrote globals names w₄ := by
    cases hoption : options.registerGlobals with
    | false =>
      refine ⟨[], ?_⟩
      show w₃.Wrote globals [] (if options.registerGlobals then _ else w₃)
      rw [hoption]
      exact .refl w₃ globals
    | true =>
      refine ⟨globalHandlers.map (·.1), ?_⟩
      show w₃.Wrote globals _ (if options.registerGlobals then _ else w₃)
      rw [hoption]
      exact (writeHandlers_wrote globalHandlers hglobals₃ (by decide)).1
  obtain ⟨names, hw₄⟩ := hw₄
  refine ⟨w₄, ?_, hw₄.machine.trans hwrote.machine, hw₄.userdata.trans hwrote.userdata,
    fun u hu => hwrote.unheld u (hw₄.unheld u hu), fun m hm => ?_, ?_⟩
  · have hattach := attach_eq options.registerGlobals globals globalHandlers
      (·.attached options adapters objects) w₃
    unfold install
    rw [bind_of_eq (show readMachine w = (w.machine, w) from rfl), bind_of_eq hrun,
      bind_of_eq (run_unit _ _), bind_of_eq (run_unit _ _)]
    exact congrArg Prod.snd hattach
  · obtain ⟨t, ht, hfield, hhandlers⟩ := hmetatables m hm
    have htne : t ≠ globals := by
      rintro rfl
      have hlt := hglobals.lt_next
      exact absurd hlt (Nat.not_lt.mpr ht)
    exact ⟨t, ht, hw₄.has_of_ne hne hfield, hhandlers.wrote_of_ne hw₄ htne⟩
  · obtain ⟨table, htable, hentries⟩ := hweak
    have hne : objects.index ≠ globals.index := by
      have hlt := hglobals.lt_next
      show w.tables.next + 1 ≠ w.machine.globals.index
      omega
    exact ⟨table, hw₄.tables _ _ hne htable, hentries⟩

/-! ## Opening -/

/-! ## Sessions that were just opened -/

/-- What a session set up, read off its tables. -/
def fixture (w : World) : Fixture where
  home := w.machine.id
  metatable name :=
    match w.fieldOf w.machine.registry name with
    | .table t => t
    | _ => ⟨0⟩
  finalizer name :=
    match w.fieldOf w.machine.registry name with
    | .table t =>
      match w.fieldOf t "__gc" with
      | .function f => f
      | _ => ⟨0⟩
    | _ => ⟨0⟩

theorem Has.fieldOf_eq (h : w.Has t name v) : w.fieldOf t name = v := by
  obtain ⟨table, ht, e, he, hslot⟩ := h
  exact fieldOf_of_find? ht he hslot

/-- Every metatable of proxies has the finalizer among its handlers. -/
theorem exists_finalizer {name : String} (hname : name ∈ proxyTableNames) :
    ∃ m ∈ metatables, m.1 = name ∧ ∃ label, ("__gc", label, .proxyCollected) ∈ m.2 := by
  simp only [proxyTableNames, List.mem_cons, List.not_mem_nil, or_false] at hname
  obtain rfl | rfl | rfl := hname
  · exact ⟨(objectTableName, objectHandlers), by simp [metatables], rfl, "object.__gc",
      by simp [objectHandlers]⟩
  · exact ⟨(typeTableName, typeHandlers), by simp [metatables], rfl, "class.__gc",
      by simp [typeHandlers]⟩
  · exact ⟨(delegateTableName, delegateHandlers), by simp [metatables], rfl, "function.__gc",
      by simp [delegateHandlers]⟩

/-- A world in which a session was just installed is set up for proxies, once its notes are put
aside. -/
theorem Installed.proxied {w' : World} {objects : TableRef} (h : w.Installed w' objects)
    (huserdata : ∀ i, w.userdata.get? i = none) (hheld : ∀ u, ¬ w.HoldsUserdata u)
    (hnextRef : 0 < w.machine.nextRef) (hgraveyard : w.machine.graveyard = [])
    (options : Options) (adapters : AdapterPolicy)
    {w₁ : World} (hw₁ : w₁ = { w' with
      machine := w'.machine.attached options adapters objects
      dropped := [] }) : w₁.Proxied w₁.fixture {} [] true := by
  have htables : w₁.tables = w'.tables := by rw [hw₁]
  have hfunctions : w₁.functions = w'.functions := by rw [hw₁]
  have hmachine : w₁.machine = w.machine.attached options adapters objects := by
    rw [hw₁, h.machine]
  have hregistry : w₁.machine.registry = w.machine.registry := by
    rw [hmachine]
    rfl
  have hsession : w₁.machine.session = some { id := w.machine.id, options, adapters, objects } := by
    rw [hmachine]
    rfl
  have hcells (i : Nat) : w₁.userdata.get? i = none := by
    rw [hw₁]
    show w'.userdata.get? i = none
    rw [h.userdata]
    exact huserdata i
  have hunheld (u : UserdataRef) : ¬ w₁.HoldsUserdata u := by
    intro hu
    rw [hw₁] at hu
    exact hheld u (h.unheld u (hu.of_same rfl rfl rfl (List.Subset.refl _) rfl))
  -- What the fixture says of a metatable.
  have hfixture (name : String) (hname : name ∈ proxyTableNames) :
      w₁.Has w₁.machine.registry name (.table (w₁.fixture.metatable name)) ∧
        w₁.Has (w₁.fixture.metatable name) "__gc" (.function (w₁.fixture.finalizer name)) ∧
        ∃ label, w₁.functions.get? (w₁.fixture.finalizer name).index =
          some ⟨label, .handler .proxyCollected⟩ := by
    obtain ⟨m, hm, rfl, label, hlabel⟩ := exists_finalizer hname
    obtain ⟨t, -, hfield, hhandlers⟩ := h.metatables m hm
    obtain ⟨f, hf, hcode⟩ := hhandlers _ hlabel
    have hfield : w₁.Has w₁.machine.registry m.1 (.table t) := by
      unfold Has
      rw [htables, hregistry]
      exact hfield
    have hf : w₁.Has t "__gc" (.function f) := by
      unfold Has
      rw [htables]
      exact hf
    have hmetatable : w₁.fixture.metatable m.1 = t := by
      unfold fixture
      dsimp only
      rw [hfield.fieldOf_eq]
    have hfinalizer : w₁.fixture.finalizer m.1 = f := by
      unfold fixture
      dsimp only
      rw [hfield.fieldOf_eq]
      dsimp only
      rw [hf.fieldOf_eq]
    rw [hmetatable, hfinalizer, hfunctions]
    exact ⟨hfield, hf, _, hcode⟩
  have hempty : w₁.HasWeakTable objects := by
    unfold HasWeakTable
    rw [htables]
    exact h.objects
  obtain ⟨table, htable, hentries, hweak⟩ := hempty
  have hkeeps : table.KeepsPlaces := by
    refine ⟨hweak, ?_, fun e he => ?_⟩
    · rw [hentries]
      exact List.nodup_nil
    · rw [hentries] at he
      cases he
  have hfitted : w₁.Fitted w₁.fixture := {
    attached := by
      rw [hmachine]
      rfl
    session := ⟨_, hsession⟩
    home := rfl
    numbers := by
      rw [hmachine]
      exact hnextRef
    registry := by
      obtain ⟨⟨t, ht, -⟩, -⟩ := hfixture objectTableName List.mem_cons_self
      refine ⟨t, ht, fun name hname => ?_⟩
      obtain ⟨⟨t', ht', hentry⟩, -⟩ := hfixture name hname
      obtain rfl : t = t' := Option.some.inj (ht.symm.trans ht')
      exact hentry
    metatables := fun name hname => (hfixture name hname).2.1
    finalizers := fun name hname => (hfixture name hname).2.2
    proxies := fun s hs => by
      obtain rfl := Option.some.inj (hsession.symm.trans hs)
      exact ⟨table, htable, hkeeps⟩ }
  have hnone (i : Nat) : w₁.proxyCell? i = none := by
    unfold proxyCell?
    rw [hcells]
    rfl
  have hplace (id : Nat) : (w₁.table objects).place? id = none := by
    unfold World.table
    rw [htable]
    refine Table.place?_of_none ?_
    show List.find? _ table.entries = none
    rw [hentries]
    rfl
  exact {
    fitted := hfitted
    kept := by
      have hnowhere : (w₁.roster {}).place = fun _ => none := by
        rw [roster_of_session hsession]
        exact funext hplace
      have hno : (w₁.roster {}).cell = fun _ => none := funext hnone
      have hpending : (w₁.roster {}).pending = [] := by
        show [] ++ w₁.machine.graveyard = []
        rw [hmachine]
        exact hgraveyard
      have hempty : (w₁.roster {}).registry = {} ∧ (w₁.roster {}).materialized = [] := by
        rw [roster_of_session hsession]
        exact ⟨rfl, rfl⟩
      exact .new hempty.1 hempty.2 hnowhere hno hpending
    complete := fun _ p hp => absurd hp List.not_mem_nil
    visible := fun _ _ p hp => absurd hp List.not_mem_nil
    notes := by
      rw [hw₁]
      exact fun d hd => absurd hd List.not_mem_nil
    quiet := fun i c hc => by
      rw [hcells] at hc
      cases hc
    unmade := fun u _ => hunheld u
    own := fun p hp => absurd hp List.not_mem_nil }

/-- The world with its notes put aside. -/
def withoutNotes (w : World) : World := { w with dropped := [] }

/-- Without userdata in the heap, where a cell was let go of does not matter. -/
theorem reclaimed_of_bare (huserdata : ∀ i, w.userdata.get? i = none) (d : Dropped)
    (rest : List Dropped) : (w.reclaimed d rest).withoutNotes =
      ({ w with dropped := [⟨d.ref, none⟩] }.reclaimed ⟨d.ref, none⟩ []).withoutNotes := by
  let w₁ : World := { w with dropped := rest }
  let w₂ : World := { w with dropped := [] }
  obtain ⟨r, during⟩ := d
  cases r with
  | userdata u =>
    have hgone : w.reclaimed ⟨.userdata u, during⟩ rest = { w with dropped := rest } :=
      reclaimed_of_gone (huserdata u.index)
    have hgone' : { w with dropped := [⟨.userdata u, none⟩] }.reclaimed ⟨.userdata u, none⟩ [] =
        { w with dropped := [] } := reclaimed_of_gone (huserdata u.index)
    exact (congrArg withoutNotes hgone).trans (congrArg withoutNotes hgone').symm
  | handle h =>
    have hempty : (w₁.empty ⟨.handle h, during⟩).1.withoutNotes =
        (w₂.empty ⟨.handle h, none⟩).1.withoutNotes := by
      cases hcell : w.handles.get? h.index with
      | none =>
        rw [empty_handle_none (w := w₁) during hcell, empty_handle_none (w := w₂) none hcell]
        rfl
      | some cell =>
        rw [empty_handle_some (w := w₁) during hcell, empty_handle_some (w := w₂) none hcell]
        rfl
    exact hempty
  | _ => rfl

/-- Notes may be put aside. -/
theorem Proxied.withNotes {F : Fixture} {g : Progress} {made : List Proxy} {room : Bool}
    (h : w.Proxied F g made room) {dropped : List Dropped}
    (hnotes : ∀ d ∈ dropped, d.during = none) : { w with dropped }.Proxied F g made room :=
  (SameProxies.of_machine w.machine w.held dropped rfl rfl rfl rfl rfl rfl
    (fun _ hu _ => .inl ⟨_, List.mem_cons_self, hu⟩) (fun _ hu _ => .inr (.inr (.inl hu)))
    fun d hd => .inr fun _ _ he => nomatch (hnotes d hd).symm.trans he).proxied h

/-- A world without userdata that is set up for proxies stays so when its notes are looked at,
wherever they were taken. -/
theorem Proxied.settled_of_bare {F : Fixture} (h : w.withoutNotes.Proxied F {} [] true)
    (huserdata : ∀ i, w.userdata.get? i = none) : w.settle.Proxied F {} [] true := by
  have hsettled := settle_keeps (w := w)
    (P := fun w => w.withoutNotes.Proxied F {} [] true ∧ ∀ i, w.userdata.get? i = none)
    (fun _ _ _ _ h _ => h)
    (fun w d rest hdropped ⟨h, huserdata⟩ hfree => by
      refine ⟨?_, fun i => ?_⟩
      · rw [reclaimed_of_bare huserdata]
        have hnoted : { w with dropped := [⟨d.ref, none⟩] }.Proxied F {} [] true :=
          h.withNotes fun d' hd' => by rw [List.mem_singleton.mp hd']
        exact (hnoted.reclaimed_free rfl hfree).withNotes fun d hd => absurd hd List.not_mem_nil
      · cases hi : (w.reclaimed d rest).userdata.get? i with
        | none => rfl
        | some c =>
          have hc := ({ w with dropped := rest }.empty_shrinks d).2.2.1 i c hi
          exact absurd ((huserdata i).symm.trans hc) nofun)
    ⟨h, huserdata⟩
  have hsame : w.settle.withoutNotes = w.settle := by
    unfold withoutNotes
    rw [← w.settle_dropped]
  exact hsame ▸ hsettled.1

/-- The world in which the first session was opened. -/
def opened (limits : Limits) (options : Options) (adapters : AdapterPolicy) : World :=
  (openSession options adapters (start limits)).2.settle

/-- A session that was just opened made no proxy and is set up to make some. -/
theorem opened_proxied (limits : Limits) (options : Options) (adapters : AdapterPolicy) :
    (∃ F, (opened limits options adapters).Proxied F {} [] true) ∧
      (opened limits options adapters).machine.HasFrame := by
  let w₁ : World := (newMachine { maxCallDepth := options.maxCallDepth } (start limits)).2
  let m : Machine := (newMachine { maxCallDepth := options.maxCallDepth } (start limits)).1
  let w₂ : World := (park m w₁).2
  have hregistry : w₂.IsStrong w₂.machine.registry := ⟨{}, rfl, rfl⟩
  have hglobals : w₂.IsStrong w₂.machine.globals := ⟨{}, rfl, rfl⟩
  have hne : w₂.machine.registry ≠ w₂.machine.globals := fun he =>
    absurd (congrArg TableRef.index he) (show (2 : Nat) ≠ 3 by decide)
  obtain ⟨w₃, hrun, hinstalled⟩ := install_installed options adapters hregistry hglobals hne
  have hheld (u : UserdataRef) : ¬ w₂.HoldsUserdata u := by
    have hempty (t : TableRef) : ((w₂.tables.get? t.index).map Table.refs).getD [] = [] := by
      have htables : w₂.tables = (((({} : Store Table).add {}).add {}).add {}).add {} := rfl
      simp only [htables, Store.get?_add]
      repeat' split
      all_goals rfl
    rintro (⟨m', hm', hu⟩ | ⟨p, hp, -⟩ | hu | ⟨t, ht⟩)
    · have hstack : m'.stack = #[] := by
        obtain rfl | hm' := List.mem_cons.mp hm'
        · rfl
        · rw [List.mem_singleton.mp hm']
          rfl
      rw [hstack] at hu
      exact absurd hu (Array.not_mem_empty _)
    · cases hp
    · cases hu
    · have ht : Ref.userdata u ∈ ((w₂.tables.get? t.index).map Table.refs).getD [] := ht
      rw [hempty] at ht
      cases ht
  let w₄ : World := { w₃ with sessions := w₃.sessions ++ [w₃.machine.id] }
  let w₅ : World :=
    { w₄ with machine := w₃.machine.attached options adapters ⟨w₂.tables.next + 1⟩ }
  have hopened : opened limits options adapters = w₅.settle := by
    unfold opened openSession
    rw [bind_of_eq (show newMachine { maxCallDepth := options.maxCallDepth } (start limits) =
        (m, w₁) from rfl), bind_of_eq (show park m w₁ = ((), w₂) from rfl),
      bind_of_eq (run_unit _ _), hrun]
    rfl
  have hinstalled : w₂.Installed w₄ ⟨w₂.tables.next + 1⟩ := {
    machine := hinstalled.machine
    userdata := hinstalled.userdata
    unheld := fun u hu =>
      hinstalled.unheld u (hu.of_same rfl rfl rfl (List.Subset.refl _) rfl)
    metatables := hinstalled.metatables
    objects := hinstalled.objects }
  have huserdata : ∀ i, w₂.userdata.get? i = none := fun i => Store.get?_eq_none _ (Nat.zero_le i)
  have hframe : w₅.machine.HasFrame := by
    have hmachine : w₅.machine = w₂.machine.attached options adapters ⟨w₂.tables.next + 1⟩ :=
      congrArg (·.attached options adapters ⟨w₂.tables.next + 1⟩) hinstalled.machine
    rw [hmachine]
    exact Nat.le_refl 0
  rw [hopened]
  refine ⟨⟨_, Proxied.settled_of_bare
    (hinstalled.proxied huserdata hheld (show (0 : Int) < 1 by decide) rfl options adapters rfl)
    fun i => ?_⟩,
    w₅.settle_sameStack.hasFrame hframe⟩
  show w₃.userdata.get? i = none
  rw [show w₃.userdata = w₂.userdata from hinstalled.userdata]
  exact huserdata i

end World

end ScriptBridge
