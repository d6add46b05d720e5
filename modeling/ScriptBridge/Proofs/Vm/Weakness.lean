import ScriptBridge.Proofs.Vm.OrderedMap
import ScriptBridge.Proofs.Vm.Reference

/-!
# Weak tables

How a table holds a value is settled when the value is written, by the mode that the table saw when
it last got a metatable. A metatable that comes later, or goes, decides on the writes to come and
leaves the entries that are there as they were written.

* `Table.get_of_written_strong` and `Table.get_of_written_weak`: what is read long after a write,
  whichever metatables came in between.
* `Table.held_of_mode_first`: in a table that got its metatable before its first entry, all entries
  are held by the mode it has now.
* `table_setTableMetatable`: which mode a table sees. A table that is its own metatable sees none.
-/

namespace ScriptBridge

namespace Table

variable {key value : Value} {live : Value → Bool} {older later : List Edit}

/-! ## Long after a write -/

/-- A change that leaves what is held under a key: another metatable, or a write under a key that is
not equal to it. -/
def Edit.Spares (key : Value) : Edit → Prop
  | set k _ => k.rawEqual key = false
  | setMetatable .. => True

theorem lastHeld_append (hlater : ∀ e ∈ later, e.Spares key) :
    lastHeld key (later ++ older) = lastHeld key older := by
  induction later with
  | nil => rfl
  | cons e later ih =>
    obtain ⟨he, hrest⟩ := List.forall_mem_cons.mp hlater
    cases e with
    | set k v =>
      have hraw : k.rawEqual key = false := he
      rw [List.cons_append, lastHeld, hraw, Bool.and_false, if_neg Bool.false_ne_true, ih hrest]
    | setMetatable => exact ih hrest

/-- What a write left is there until the next write under an equal key. -/
theorem lastHeld_written (hkey : key.isKey = true) (hvalue : value.isNil = false)
    (hlater : ∀ e ∈ later, e.Spares key) :
    lastHeld key (later ++ .set key value :: older) = some (heldAfter older value) := by
  obtain ⟨k, hk⟩ := Key.exists_ofValue? hkey
  rw [lastHeld_append hlater, lastHeld_self hk hk, hvalue]
  rfl

theorem get_written (hkey : key.isKey = true) (hvalue : value.isNil = false)
    (hlater : ∀ e ∈ later, e.Spares key) :
    (edited (later ++ .set key value :: older)).get live key =
      (heldAfter older value).read live := by
  rw [(edited_follows _).get_eq live key, lastHeld_written hkey hvalue hlater]
  rfl

theorem heldAfter_strong (hmode : weakAfter older = false) :
    heldAfter older value = .strong value := by
  unfold heldAfter
  rw [hmode]
  cases value <;> rfl

theorem heldAfter_weak (hmode : weakAfter older = true)
    (hvalue : (∃ t, value = .table t) ∨ ∃ u, value = .userdata u) :
    heldAfter older value = .weak value := by
  unfold heldAfter
  rw [hmode]
  obtain ⟨t, rfl⟩ | ⟨u, rfl⟩ := hvalue <;> rfl

/-- A value that was written without a weak mode is held for good, whichever mode came later. -/
theorem get_of_written_strong (hkey : key.isKey = true) (hvalue : value.isNil = false)
    (hlater : ∀ e ∈ later, e.Spares key) (hmode : weakAfter older = false) :
    (edited (later ++ .set key value :: older)).get live key = value := by
  rw [get_written hkey hvalue hlater, heldAfter_strong hmode]
  rfl

/-- A table or userdata that was written under a weak mode is not held, even if the mode is gone. -/
theorem get_of_written_weak (hkey : key.isKey = true)
    (hvalue : (∃ t, value = .table t) ∨ ∃ u, value = .userdata u)
    (hlater : ∀ e ∈ later, e.Spares key) (hmode : weakAfter older = true) :
    (edited (later ++ .set key value :: older)).get live key =
      if live value then value else .nil := by
  have hnil : value.isNil = false := by obtain ⟨t, rfl⟩ | ⟨u, rfl⟩ := hvalue <;> rfl
  rw [get_written hkey hnil hlater, heldAfter_weak hmode hvalue]
  rfl

/-- What is held for good is among the references of the table. -/
theorem refs_of_written_strong (hkey : key.isKey = true) (hvalue : value.isNil = false)
    (hlater : ∀ e ∈ later, e.Spares key) (hmode : weakAfter older = false) :
    value.refs ⊆ (edited (later ++ .set key value :: older)).refs := by
  obtain ⟨k, hk⟩ := Key.exists_ofValue? hkey
  have hheld := (edited_follows (later ++ .set key value :: older)).held key k hk
  rw [lastHeld_written hkey hvalue hlater, heldAfter_strong hmode] at hheld
  obtain ⟨e, he, hslot⟩ := Option.map_eq_some_iff.mp hheld
  intro r hr
  refine List.mem_append_left _ (List.mem_flatMap.mpr ⟨e, List.mem_of_find?_eq_some he, ?_⟩)
  unfold Entry.refs
  rw [hslot]
  exact List.mem_append_right _ (List.mem_flatMap.mpr ⟨value, List.mem_singleton_self value, hr⟩)

/-! ## The metatable first -/

theorem weakAfter_append (hlater : ∀ e ∈ later, ∃ key value, e = .set key value) :
    weakAfter (later ++ older) = weakAfter older := by
  induction later with
  | nil => rfl
  | cons e later ih =>
    obtain ⟨⟨key, value, rfl⟩, hrest⟩ := List.forall_mem_cons.mp hlater
    exact ih hrest

theorem heldAfter_congr {h h' : List Edit} (hmode : weakAfter h = weakAfter h') (value : Value) :
    heldAfter h value = heldAfter h' value := by
  unfold heldAfter
  rw [hmode]

theorem eq_or_mem_of_including {i : Item} {slot : Slot} {items : List Item}
    (hi : i ∈ including key slot items) : i = (key, slot) ∨ i ∈ items := by
  unfold including at hi
  split at hi
  · obtain ⟨j, hj, rfl⟩ := List.mem_map.mp hi
    split
    · exact .inl rfl
    · exact .inr hj
  · exact (List.mem_append.mp hi).symm.imp_left List.mem_singleton.mp

/-- If the mode was settled before the first entry came in, all entries are held by it. -/
theorem held_of_mode_first (hempty : listed older = [])
    (hlater : ∀ e ∈ later, ∃ key value, e = .set key value) {i : Item}
    (hi : i ∈ listed (later ++ older)) :
    ∃ value, i.2 = heldAfter (later ++ older) value := by
  simp only [heldAfter_congr (weakAfter_append hlater)]
  induction later with
  | nil =>
    rw [List.nil_append, hempty] at hi
    cases hi
  | cons e later ih =>
    obtain ⟨⟨key, value, rfl⟩, hrest⟩ := List.forall_mem_cons.mp hlater
    rw [List.cons_append, listed] at hi
    -- Only a write of a value under a key brings an item in.
    split at hi
    · exact ih hrest hi
    · split at hi
      · exact ih hrest (List.mem_of_mem_filter hi)
      · obtain rfl | hi := eq_or_mem_of_including hi
        · exact ⟨value, heldAfter_congr (weakAfter_append hrest) value⟩
        · exact ih hrest hi

-- A table that is stored before the weak metatable comes is held for good; one that is stored under
-- it is lost, although the metatable is taken away again.
example :
    let inner := Value.table ⟨1⟩
    let store := Edit.set (.text "x") inner
    let weaken := Edit.setMetatable (some ⟨2⟩) (.text "v")
    (edited [weaken, store]).get (fun _ => false) (.text "x") = inner ∧
      (edited [.setMetatable none .nil, store, weaken]).get (fun _ => false) (.text "x") =
        .nil := by
  decide

end Table

/-! ## The mode a table sees -/

/-- What a table sees under `__mode` of a metatable; nothing, if that is the table itself. -/
def World.modeSeen (w : World) (t : TableRef) : Option TableRef → Value
  | some mt => if mt = t then .nil else w.fieldOf mt "__mode"
  | none => .nil

/-- A table of the heap that gets a metatable changes as a history of its changes says. -/
theorem table_setTableMetatable {w : World} {t : TableRef}
    (ht : ∃ old, w.tables.get? t.index = some old) (metatable : Option TableRef) :
    (setTableMetatable t metatable w).2.table t =
      (Table.Edit.setMetatable metatable (w.modeSeen t metatable)).run (w.table t) := by
  have hmode : setTableMetatable t metatable w =
      (do
        setTable t ((w.table t).setMetatable metatable (w.modeSeen t metatable))
        discard ((w.table t).metatable.map Ref.table).toList (some t) : Action Unit) w := by
    unfold setTableMetatable World.modeSeen
    rw [bind_of_eq (get_eq w)]
    cases metatable with
    | none => rfl
    | some mt => simp only [beq_iff_eq]
  rw [hmode, bind_of_eq (setTable_eq t _ w), discard_eq]
  exact World.table_withTable ht _ ((w.table t).metatable.map Ref.table).toList

/-- A table that becomes its own metatable holds its values for good, whatever its mode says. -/
theorem weakValues_own_metatable {w : World} {t : TableRef}
    (ht : ∃ old, w.tables.get? t.index = some old) :
    ((setTableMetatable t (some t) w).2.table t).weakValues = false := by
  have hmode : w.modeSeen t (some t) = .nil := if_pos rfl
  rw [table_setTableMetatable ht, hmode]
  rfl

end ScriptBridge
