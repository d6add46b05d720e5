import ScriptBridge.Memory.Reclaim
import ScriptBridge.Proofs.Vm.Lots

/-!
# Leases of reference numbers

A handle has a lease on a reference number: the number is given out when the handle is made, waits
in a queue once the last clone of the handle is gone, and is put back on the free list when the
queue is worked off. `Table.Numbered` says that every number that was ever given out is in exactly
one of these three lots, and that the slot of a lease holds the value it was made for.
-/

namespace ScriptBridge

/-- What was agreed when a handle was made. -/
structure Lease where
  handle : HandleRef
  value : Value
  number : Int
deriving DecidableEq

/-- The number of a lease and what its slot holds. -/
def Lease.entry (l : Lease) : Int × Value := (l.number, l.value)

theorem map_entry (current : List Lease) :
    (current.map Lease.entry).map Prod.fst = current.map Lease.number :=
  List.map_map

/-- The numbers below `next` are those of current leases, those in the queue and the free ones. -/
structure Table.Numbered (t : Table) (next : Int) (current : List Lease) (queue free : List Int) :
    Prop where
  slots : t.Slots (fun _ => true) next free
  positive : 0 < next
  small : next ≤ IntegerKind.i32.hi
  nodup : (current.map Lease.number ++ (queue ++ free)).Nodup
  covers : ∀ r, 0 < r ∧ r < next ↔ r ∈ current.map Lease.number ++ (queue ++ free)
  stored : ∀ l ∈ current, t.find? (.integer l.number) =
    some ⟨.integer l.number, .number (Number.ofInt l.number), .strong l.value⟩

namespace Table.Numbered

variable {t : Table} {next : Int} {current : List Lease} {queue free : List Int}

theorem lots (h : t.Numbered next current queue free) :
    t.Lots next (current.map Lease.entry) queue free where
  slots := h.slots
  positive := h.positive
  small := Int.le_trans h.small (Int.le_add_one (Int.le_refl _))
  nodup := by
    rw [map_entry]
    exact h.nodup
  covers := by
    rw [map_entry]
    exact h.covers
  stored := by
    intro e he
    obtain ⟨l, hl, rfl⟩ := List.mem_map.mp he
    exact h.stored l hl

/-- Two leases are on different numbers. -/
theorem eq_of_number (h : t.Numbered next current queue free) {l l' : Lease} (hl : l ∈ current)
    (hl' : l' ∈ current) (hnumber : l.number = l'.number) : l = l' :=
  List.inj_on_of_nodup_map (List.nodup_append.mp h.nodup).1 hl hl' hnumber

/-- The table holds the values of leases. -/
theorem mem_refs (h : t.Numbered next current queue free) {l : Lease} (hl : l ∈ current) {x : Ref}
    (hx : x ∈ l.value.refs) : x ∈ t.refs := by
  refine List.mem_append_left _ (List.mem_flatMap.mpr ⟨_, List.mem_of_find?_eq_some
    (h.stored l hl), List.mem_append_right _ ?_⟩)
  show x ∈ [l.value].flatMap Value.refs
  rw [List.flatMap_singleton]
  exact hx

end Table.Numbered

/-- The lots of a table are those of its leases when the next number fits the type of references as
well. -/
theorem Table.Lots.numbered {t : Table} {next : Int} {current : List Lease} {queue free : List Int}
    (h : t.Lots next (current.map Lease.entry) queue free) (hsmall : next ≤ IntegerKind.i32.hi) :
    t.Numbered next current queue free where
  slots := h.slots
  positive := h.positive
  small := hsmall
  nodup := by
    rw [← map_entry]
    exact h.nodup
  covers := by
    rw [← map_entry]
    exact h.covers
  stored := fun l hl => h.stored l.entry (List.mem_map_of_mem hl)

/-- The last clone of a handle is gone: its number waits for release. -/
theorem Table.Numbered.retire {t : Table} {next : Int} {current : List Lease}
    {queue free : List Int} (h : t.Numbered next current queue free) {l : Lease}
    (hl : l ∈ current) : t.Numbered next (current.erase l) (queue ++ [l.number]) free :=
  (h.lots.retire ((List.perm_cons_erase hl).map Lease.entry)).numbered h.small

end ScriptBridge
