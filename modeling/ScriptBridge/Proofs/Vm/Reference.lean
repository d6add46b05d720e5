import ScriptBridge.Proofs.Memory.Ownership
import ScriptBridge.Proofs.Vm.Slots

/-!
# References and raw writes

Cells of the machine and cells of the host are told apart by their references: what the host keeps
in its cells is of the host only. Raw writes change one table of the heap and note what they let go
of; `World.withTable` is the world after one, and `World.Rewritten` says what several leave alone. A
new reference takes a number off the free list, or the next one.
-/

namespace ScriptBridge

/-! ## References of the machine and of the host -/

/-- A reference to a table, a function or a userdata. -/
def Ref.InMachine : Ref → Prop
  | .table _ | .function _ | .userdata _ => True
  | _ => False

/-- No reference of the list is one of the machine. -/
def HostOnly (refs : List Ref) : Prop := ∀ r ∈ refs, ¬ r.InMachine

namespace HostOnly

variable {α : Type}

theorem nil : HostOnly [] := fun _ h => absurd h List.not_mem_nil

theorem append {l l' : List Ref} (h : HostOnly l) (h' : HostOnly l') : HostOnly (l ++ l') :=
  fun r hr => (List.mem_append.mp hr).elim (h r) (h' r)

theorem cons {r : Ref} {l : List Ref} (h : ¬ r.InMachine) (h' : HostOnly l) : HostOnly (r :: l) :=
  fun x hx => (List.mem_cons.mp hx).elim (fun he => he ▸ h) (h' x)

theorem flatMap {f : α → List Ref} (h : ∀ a, HostOnly (f a)) (l : List α) :
    HostOnly (l.flatMap f) := by
  intro r hr
  obtain ⟨a, -, hr⟩ := List.mem_flatMap.mp hr
  exact h a r hr

theorem cells (l : List CellRef) : HostOnly (l.map Ref.cell) := by
  intro r hr
  obtain ⟨c, -, rfl⟩ := List.mem_map.mp hr
  exact fun h => h

theorem objects (l : List ObjectRef) : HostOnly (l.map Ref.object) := by
  intro r hr
  obtain ⟨o, -, rfl⟩ := List.mem_map.mp hr
  exact fun h => h

theorem option {f : α → List Ref} (h : ∀ a, HostOnly (f a)) (o : Option α) :
    HostOnly ((o.map f).getD []) := by
  cases o with
  | none => exact nil
  | some a => exact h a

end HostOnly

theorem hostOnly_hostValue (v : HostValue) : HostOnly v.refs := by
  cases v with
  | object | handle => exact .cons (fun h => h) .nil
  | _ => exact .nil

theorem hostOnly_class (c : Class) : HostOnly c.refs := .cells _

theorem hostOnly_method (m : Method) : HostOnly m.refs := .cells _

theorem hostOnly_target (o : Option ObjectRef) : HostOnly (o.map Ref.object).toList := by
  cases o with
  | none => exact .nil
  | some o => exact .cons (fun h => h) .nil

theorem hostOnly_objectData (d : ObjectData) : HostOnly d.refs := by
  cases d with
  | bag b =>
    exact ((HostOnly.flatMap (fun _ => hostOnly_hostValue _) _).append
      (.flatMap (fun _ => (hostOnly_hostValue _).append (hostOnly_hostValue _)) _)).append
      (.flatMap (fun _ => .objects _) _)
  | foreign => exact .nil
  | array _ items => exact .flatMap hostOnly_hostValue _
  | delegate body =>
    cases body with
    | statements => exact .nil
    | script f signature => exact .cons (fun h => h) (hostOnly_method signature)
  | typeOf cls => exact hostOnly_class cls
  | scriptTable t => exact .cons (fun h => h) .nil
  | event target e => exact (hostOnly_target target).append (.cells _)

theorem hostOnly_object (o : HostObject) : HostOnly o.refs :=
  (hostOnly_class o.cls).append (hostOnly_objectData o.data)

theorem hostOnly_plan (p : Plan) : HostOnly p.refs :=
  ((hostOnly_method p.method).append (.flatMap hostOnly_hostValue _)).append
    (.flatMap (fun _ => .cells _) _)

theorem hostOnly_dispatcher (d : Dispatcher) : HostOnly d.refs :=
  (((hostOnly_class d.cls).append (.flatMap hostOnly_method _)).append
    (hostOnly_target d.bound)).append (.option hostOnly_plan d.plan)

theorem hostOnly_cell (c : Cell) : HostOnly c.refs := by
  cases c with
  | value v => exact hostOnly_hostValue v
  | handlers hs => exact .objects _

/-! ## Writes into a table -/

theorem discard_eq (refs : List Ref) (during : Option TableRef) (w : World) :
    discard refs during w = ((), { w with dropped := w.dropped ++ refs.map (⟨·, during⟩) }) := by
  unfold discard
  cases refs with
  | nil =>
    show ((), w) = ((), { w with dropped := w.dropped ++ [] })
    rw [List.append_nil]
  | cons r rest => rfl

/-- A table with another one in its place, and notes of what the write dropped. -/
def World.withTable (w : World) (t : TableRef) (table : Table) (refs : List Ref) : World :=
  { w with
    tables := w.tables.modify t.index fun _ => table
    dropped := w.dropped ++ refs.map (⟨·, some t⟩) }

theorem setTable_eq (t : TableRef) (table : Table) (w : World) :
    setTable t table w = ((), { w with tables := w.tables.modify t.index fun _ => table }) := rfl

theorem writeTable_eq (t : TableRef) (change : Table × List Value) (refs : List Ref) (w : World) :
    (do
      writeTable t change
      discard refs (some t) : Action Unit) w =
      ((), w.withTable t change.1 (change.2.flatMap Value.refs ++ refs)) := by
  unfold writeTable
  rw [bind_assoc, bind_of_eq (setTable_eq t change.1 w), bind_of_eq (discard_eq _ _ _), discard_eq]
  unfold World.withTable
  rw [List.map_append, List.append_assoc]

theorem rawSet_of_ok {t : TableRef} {key value : Value} {w : World} {change : Table × List Value}
    (h : (w.table t).set key value = .ok change) :
    rawSet t key value w = .ok ()
      (w.withTable t change.1 (change.2.flatMap Value.refs ++ (key.refs ++ value.refs))) := by
  unfold rawSet
  rw [get_bind, h]
  exact lift_of_eq (writeTable_eq t change (key.refs ++ value.refs) w)

theorem rawSetField_eq (t : TableRef) (name : String) (v : Value) (w : World) :
    rawSetField t name v w = ((), w.withTable t ((w.table t).setText name v).1
      (((w.table t).setText name v).2.flatMap Value.refs ++ v.refs)) := by
  unfold rawSetField
  rw [bind_of_eq (get_eq w)]
  exact writeTable_eq t _ v.refs w

-- The table after the write is a variable here, so that no step of a proof computes it.
theorem rawSetInt_eq (t : TableRef) (n : Int) (v : Value) (w : World) {change : Table × List Value}
    (h : (w.table t).setInt n v = change) :
    rawSetInt t n v w =
      ((), w.withTable t change.1 (change.2.flatMap Value.refs ++ v.refs)) := by
  unfold rawSetInt
  rw [bind_of_eq (get_eq w), h]
  exact writeTable_eq t change v.refs w

namespace World

variable {w : World}

theorem table_of_get? {t : TableRef} {table : Table} (h : w.tables.get? t.index = some table) :
    w.table t = table := by
  unfold World.table
  rw [h]
  rfl

theorem get?_withTable {t : TableRef} {old : Table} (h : w.tables.get? t.index = some old)
    (table : Table) (refs : List Ref) :
    (w.withTable t table refs).tables.get? t.index = some table := by
  show (w.tables.modify t.index fun _ => table).get? t.index = some table
  rw [Store.get?_modify, if_pos rfl, h]
  rfl

theorem get?_withTable_of_ne {t u : TableRef} (h : u ≠ t) (table : Table) (refs : List Ref) :
    (w.withTable t table refs).tables.get? u.index = w.tables.get? u.index := by
  have hindex : t.index ≠ u.index := fun hindex => h (congrArg TableRef.mk hindex.symm)
  exact Store.get?_modify_of_ne _ _ hindex

theorem contains_withTable (t : TableRef) (table : Table) (refs : List Ref) (i : Nat) :
    (w.withTable t table refs).tables.contains i = w.tables.contains i := by
  show (w.tables.modify t.index fun _ => table).contains i = w.tables.contains i
  rw [Store.contains_eq, Store.contains_eq, Store.get?_modify]
  split
  · exact Option.isSome_map
  · rfl

theorem isLive_withTable (t : TableRef) (table : Table) (refs : List Ref) :
    (w.withTable t table refs).isLive = w.isLive := by
  funext v
  cases v with
  | table u => exact contains_withTable t table refs u.index
  | nil | boolean | number | text | function | userdata => rfl

theorem table_withTable {t : TableRef} (h : ∃ old, w.tables.get? t.index = some old)
    (table : Table) (refs : List Ref) : (w.withTable t table refs).table t = table := by
  obtain ⟨old, hold⟩ := h
  exact table_of_get? (get?_withTable hold table refs)

end World

/-! ## Worlds after writes -/

/-- Only tables, notes and the counter of references changed, and no table came or went. -/
structure World.Rewritten (w w' : World) : Prop where
  same : ∃ next, w' = { w with
    tables := w'.tables
    dropped := w'.dropped
    machine.nextRef := next }
  contains : ∀ i, w'.tables.contains i = w.tables.contains i
  dropped : ∀ d ∈ w.dropped, d ∈ w'.dropped

namespace World.Rewritten

variable {w w' w₁ w₂ w₃ : World}

theorem refl (w : World) : w.Rewritten w := ⟨⟨w.machine.nextRef, rfl⟩, fun _ => rfl, fun _ h => h⟩

theorem trans (h : w₁.Rewritten w₂) (h' : w₂.Rewritten w₃) : w₁.Rewritten w₃ where
  same := by
    obtain ⟨next, hsame⟩ := h.same
    obtain ⟨next', hsame'⟩ := h'.same
    refine ⟨next', ?_⟩
    rw [hsame] at hsame'
    exact hsame'
  contains i := (h'.contains i).trans (h.contains i)
  dropped d hd := h'.dropped d (h.dropped d hd)

theorem withTable (w : World) (t : TableRef) (table : Table) (refs : List Ref) :
    w.Rewritten (w.withTable t table refs) where
  same := ⟨w.machine.nextRef, rfl⟩
  contains := World.contains_withTable t table refs
  dropped _ hd := List.mem_append_left _ hd

theorem nextRef (w : World) (next : Int) :
    w.Rewritten { w with machine.nextRef := next } :=
  ⟨⟨next, rfl⟩, fun _ => rfl, fun _ h => h⟩

theorem registry (h : w.Rewritten w') : w'.machine.registry = w.machine.registry := by
  obtain ⟨next, hsame⟩ := h.same
  rw [hsame]

theorem isLive (h : w.Rewritten w') (v : Value) : w'.isLive v = w.isLive v := by
  obtain ⟨next, hsame⟩ := h.same
  cases v with
  | table t => exact h.contains t.index
  | function f =>
    rw [hsame]
    rfl
  | userdata u =>
    rw [hsame]
    rfl
  | _ => rfl

end World.Rewritten

/-! ## New references -/

theorem takeReference_free {w : World} {r : Int}
    (hr : Reference.head (w.fieldOf w.machine.registry Reference.freeField) = r) (hpos : 0 < r) :
    takeReference w = (r, (rawSetField w.machine.registry Reference.freeField
      ((w.table w.machine.registry).getInt w.isLive r) w).2) := by
  subst hr
  unfold takeReference
  rw [bind_of_eq (get_eq w)]
  dsimp only
  rw [if_pos hpos]
  rfl

theorem takeReference_new {w : World}
    (hr : Reference.head (w.fieldOf w.machine.registry Reference.freeField) ≤ 0) :
    takeReference w = (w.machine.nextRef,
      { w with machine.nextRef := w.machine.nextRef + 1 }) := by
  unfold takeReference
  rw [bind_of_eq (get_eq w)]
  dsimp only
  rw [if_neg (Int.not_lt.mpr hr)]
  rfl

/-- A reference is a number that is taken, and under which the value is written. -/
theorem createRef_of_take {w w₁ w₂ : World} {v : Value} {r : Int} (hv : v.isNil = false)
    (htake : takeReference w = (r, w₁))
    (hwrite : rawSetInt w₁.machine.registry r v w₁ = ((), w₂)) : createRef v w = (r, w₂) := by
  have hread : readMachine w₁ = (w₁.machine, w₁) := rfl
  unfold createRef
  rw [if_neg (Bool.eq_false_iff.mp hv), bind_of_eq htake, bind_of_eq hread, bind_of_eq hwrite]
  rfl

end ScriptBridge
