import ScriptBridge.Proofs.Vm.Keys

/-!
# A table is an ordered map

A table that any history of changes makes has the contents that the history says: under a key the
value of the last write to an equal key, unless that write removed it, and the keys in the order in
which they came in.

1. `Table.Edit` lists the changes of a table, and `Table.edited` runs a history of them.
2. `Table.lastHeld` and `Table.listed` read off the history alone what it leaves under a key, and
   which keys it leaves in which order. They know equality of values only, no identities of entries.
3. `Follows.run` is the step: one more change keeps a table in line with its history.
4. `Table.edited_ordered_map` says what writing, reading, asking for the next entry and measuring do
   with such a table.
-/

namespace ScriptBridge

namespace Table

/-! ## Histories of changes -/

/-- A change of a table. Writing under a text or an integer is writing under that value. -/
inductive Edit where
  | set (key value : Value)
  /-- Puts another metatable in place, with what it has under `__mode`. -/
  | setMetatable (metatable : Option TableRef) (mode : Value)

/-- The table after a change; a key that is refused leaves it as it is. -/
def Edit.run (t : Table) : Edit → Table
  | set key value =>
    match t.set key value with
    | .ok change => change.1
    | .error _ => t
  | setMetatable metatable mode => t.setMetatable metatable mode

/-- The table that a history makes of an empty one; the latest change comes first. -/
def edited : List Edit → Table
  | [] => {}
  | e :: older => e.run (edited older)

/-! ## What a history leaves -/

/-- Whether tables and userdata are held weakly that are written after a history. -/
def weakAfter : List Edit → Bool
  | [] => false
  | .set .. :: older => weakAfter older
  | .setMetatable _ mode :: _ => isWeakMode mode

/-- How a value is held that is written after a history. -/
def heldAfter (older : List Edit) (value : Value) : Slot :=
  match value with
  | .table _ | .userdata _ => if weakAfter older then .weak value else .strong value
  | _ => .strong value

/-- What the last write to an equal key left there; none if that removed it, or there was none. -/
def lastHeld (key : Value) : List Edit → Option Slot
  | [] => none
  | .set k value :: older =>
    if k.isKey && k.rawEqual key then
      if value.isNil then none else some (heldAfter older value)
    else lastHeld key older
  | .setMetatable .. :: older => lastHeld key older

/-- A key as it was last written, and what is held under it. -/
abbrev Item := Value × Slot

/-- Removes a key; the others keep their order. -/
def without (key : Value) (items : List Item) : List Item :=
  items.filter fun i => !i.1.rawEqual key

/-- Puts a value under a key: in the place of an equal key, or else at the end. -/
def including (key : Value) (slot : Slot) (items : List Item) : List Item :=
  if items.any (·.1.rawEqual key) then
    items.map fun i => if i.1.rawEqual key then (key, slot) else i
  else items ++ [(key, slot)]

/-- The keys that a history leaves, with what is held under them, in order. -/
def listed : List Edit → List Item
  | [] => []
  | .set key value :: older =>
    if !key.isKey then listed older
    else if value.isNil then without key (listed older)
    else including key (heldAfter older value) (listed older)
  | .setMetatable .. :: older => listed older

/-! ### The first item -/

section

variable {key : Value} {slot : Slot} {i : Item} {rest : List Item}

theorem including_cons_of_eq (hi : i.1.rawEqual key = true)
    (hrest : ∀ j ∈ rest, j.1.rawEqual key = false) :
    including key slot (i :: rest) = (key, slot) :: rest := by
  unfold including
  rw [List.any_cons, hi, Bool.true_or, if_pos rfl, List.map_cons, if_pos hi]
  congr 1
  refine (List.map_congr_left fun j hj => ?_).trans (List.map_id rest)
  rw [hrest j hj]
  rfl

theorem including_cons_of_ne (hi : i.1.rawEqual key = false) :
    including key slot (i :: rest) = i :: including key slot rest := by
  unfold including
  rw [List.any_cons, hi, Bool.false_or, List.map_cons, hi, if_neg Bool.false_ne_true]
  split <;> rfl

theorem without_cons_of_eq (hi : i.1.rawEqual key = true)
    (hrest : ∀ j ∈ rest, j.1.rawEqual key = false) : without key (i :: rest) = rest := by
  unfold without
  rw [List.filter_cons, hi, Bool.not_true, if_neg Bool.false_ne_true, List.filter_eq_self]
  intro j hj
  rw [hrest j hj]
  rfl

theorem without_cons_of_ne (hi : i.1.rawEqual key = false) :
    without key (i :: rest) = i :: without key rest := by
  unfold without
  rw [List.filter_cons, hi, Bool.not_false, if_pos rfl]

end

/-! ## Entries and items -/

/-- An entry without its identity. -/
def item (e : Entry) : Item := (e.written, e.slot)

/-- The keys of a table, with what is held under them, in order. -/
def items (t : Table) : List Item := t.entries.map item

/-- The identity of an entry is that of a key exactly when it was written under an equal one. -/
theorem key_beq {e : Entry} {key : Value} {k : Key} (he : Key.ofValue? e.written = some e.key)
    (hk : Key.ofValue? key = some k) : (e.key == k) = e.written.rawEqual key := by
  have hiff := Key.ofValue?_eq_iff (b := key) he
  rw [hk, Option.some.injEq] at hiff
  rw [Bool.eq_iff_iff, beq_iff_eq, ← hiff]
  exact eq_comm

/-- Every entry is filed under the identity of its key, once, and was written with a value. -/
structure WellFiled (entries : List Entry) : Prop where
  keyed : ∀ e ∈ entries, Key.ofValue? e.written = some e.key
  nodup : (entries.map Entry.key).Nodup
  filled : ∀ e ∈ entries, (e.slot.read fun _ => true).isNil = false

namespace WellFiled

variable {e : Entry} {entries rest : List Entry} {key : Value} {k : Key}

theorem nil : WellFiled [] := ⟨List.forall_mem_nil _, .nil, List.forall_mem_nil _⟩

theorem tail (hw : WellFiled (e :: rest)) : WellFiled rest where
  keyed e' he' := hw.keyed e' (List.mem_cons_of_mem _ he')
  nodup := (List.nodup_cons.mp hw.nodup).2
  filled e' he' := hw.filled e' (List.mem_cons_of_mem _ he')

theorem putEntry (hw : WellFiled entries) (hkeyed : Key.ofValue? e.written = some e.key)
    (hfilled : (e.slot.read fun _ => true).isNil = false) :
    WellFiled (Table.putEntry e entries) where
  keyed e' he' := by
    obtain rfl | he' := eq_or_mem_of_putEntry he'
    · exact hkeyed
    · exact hw.keyed e' he'
  nodup := nodup_putEntry e hw.nodup
  filled e' he' := by
    obtain rfl | he' := eq_or_mem_of_putEntry he'
    · exact hfilled
    · exact hw.filled e' he'

theorem eraseP (hw : WellFiled entries) (p : Entry → Bool) : WellFiled (entries.eraseP p) where
  keyed e he := hw.keyed e (List.mem_of_mem_eraseP he)
  nodup := (List.Sublist.map Entry.key List.eraseP_sublist).nodup hw.nodup
  filled e he := hw.filled e (List.mem_of_mem_eraseP he)

theorem beq_head (hw : WellFiled (e :: rest)) (hk : Key.ofValue? key = some k) :
    (e.key == k) = (item e).1.rawEqual key :=
  key_beq (hw.keyed e List.mem_cons_self) hk

/-- The entries behind the one of a key have other keys. -/
theorem rawEqual_rest (hw : WellFiled (e :: rest)) (hk : Key.ofValue? key = some k)
    (he : (item e).1.rawEqual key = true) :
    ∀ i ∈ rest.map item, i.1.rawEqual key = false := by
  intro i hi
  obtain ⟨e', he', rfl⟩ := List.mem_map.mp hi
  have hkey : e.key = k := beq_iff_eq.mp ((hw.beq_head hk).trans he)
  show e'.written.rawEqual key = false
  rw [← key_beq (hw.tail.keyed e' he') hk, beq_eq_false_iff_ne]
  intro hkey'
  exact (List.nodup_cons.mp hw.nodup).1
    (hkey.trans hkey'.symm ▸ List.mem_map_of_mem (f := Entry.key) he')

theorem items_putEntry (hw : WellFiled entries) (hk : Key.ofValue? key = some k) (slot : Slot) :
    (Table.putEntry ⟨k, key, slot⟩ entries).map item = including key slot (entries.map item) := by
  induction entries with
  | nil => rfl
  | cons e rest ih =>
    unfold Table.putEntry
    rw [List.map_cons, hw.beq_head hk]
    cases he : (item e).1.rawEqual key with
    | true =>
      rw [if_pos rfl, List.map_cons, including_cons_of_eq he (hw.rawEqual_rest hk he)]
      rfl
    | false =>
      rw [if_neg Bool.false_ne_true, List.map_cons, ih hw.tail, including_cons_of_ne he]

theorem items_eraseP (hw : WellFiled entries) (hk : Key.ofValue? key = some k) :
    (entries.eraseP (·.key == k)).map item = without key (entries.map item) := by
  induction entries with
  | nil => rfl
  | cons e rest ih =>
    rw [List.eraseP_cons, List.map_cons, hw.beq_head hk]
    cases he : (item e).1.rawEqual key with
    | true => rw [cond_true, without_cons_of_eq he (hw.rawEqual_rest hk he)]
    | false => rw [cond_false, List.map_cons, ih hw.tail, without_cons_of_ne he]

end WellFiled

/-! ## One change -/

/-- A table has the contents that a history leaves. -/
structure Follows (t : Table) (h : List Edit) : Prop where
  filed : WellFiled t.entries
  weak : t.weakValues = weakAfter h
  items : t.items = listed h
  held : ∀ key k, Key.ofValue? key = some k → (t.find? k).map Entry.slot = lastHeld key h

variable {t : Table} {h : List Edit} {key key' : Value} {k k' : Key}

theorem isKey_of_key (hk : Key.ofValue? key = some k) : key.isKey = true := by
  rw [← Bool.not_eq_false, ← Key.ofValue?_eq_none, hk]
  nofun

theorem lastHeld_self (hk : Key.ofValue? key = some k) (hk' : Key.ofValue? key' = some k)
    (value : Value) : lastHeld key' (.set key value :: h) =
      if value.isNil then none else some (heldAfter h value) := by
  rw [lastHeld, isKey_of_key hk, (Key.ofValue?_eq_iff hk).mp hk']
  rfl

theorem lastHeld_of_ne (hk : Key.ofValue? key = some k) (hk' : Key.ofValue? key' = some k')
    (hne : k ≠ k') (value : Value) :
    lastHeld key' (.set key value :: h) = lastHeld key' h := by
  have hraw : key.rawEqual key' = false := by
    rw [← Bool.not_eq_true, ← Key.ofValue?_eq_iff hk, hk', Option.some.injEq]
    exact Ne.symm hne
  rw [lastHeld, hraw, Bool.and_false, if_neg Bool.false_ne_true]

theorem Edit.run_set_of_key (t : Table) (hk : Key.ofValue? key = some k) (value : Value) :
    (Edit.set key value).run t = (t.setKey k key value).1 := by
  rw [run, Table.set, hk]

theorem Edit.run_set_of_not_key (t : Table) (hk : Key.ofValue? key = none) (value : Value) :
    (Edit.set key value).run t = t := by
  rw [run, Table.set, hk]

namespace Follows

theorem slotFor_eq (hf : t.Follows h) (value : Value) : t.slotFor value = heldAfter h value := by
  unfold slotFor heldAfter
  cases value <;> simp only [hf.weak]

/-- A key that is refused leaves the table and the history as they are. -/
theorem refused (hf : t.Follows h) (hk : Key.ofValue? key = none) (value : Value) :
    t.Follows (.set key value :: h) := by
  have hkey : key.isKey = false := Key.ofValue?_eq_none.mp hk
  refine ⟨hf.filed, hf.weak, ?_, fun key' k' hk' => ?_⟩
  · rw [listed, hkey]
    exact hf.items
  · rw [lastHeld, hkey]
    exact hf.held key' k' hk'

/-- A write under an identity, given what it makes of the entries and of that identity. -/
theorem setKey (hf : t.Follows h) (hk : Key.ofValue? key = some k) {value : Value}
    (hfiled : WellFiled (t.setKey k key value).1.entries)
    (hitems : (t.setKey k key value).1.items = listed (.set key value :: h))
    (hself : ((t.setKey k key value).1.find? k).map Entry.slot =
      if value.isNil then none else some (heldAfter h value)) :
    (t.setKey k key value).1.Follows (.set key value :: h) := by
  refine ⟨hfiled, hf.weak, hitems, fun key' k' hk' => ?_⟩
  by_cases hkk : k = k'
  · subst hkk
    rw [hself, lastHeld_self hk hk']
  · rw [t.find?_setKey_of_ne hkk, hf.held key' k' hk', lastHeld_of_ne hk hk' hkk]

theorem setKey_nil (hf : t.Follows h) (hk : Key.ofValue? key = some k) {value : Value}
    (hvalue : value.isNil = true) : (t.setKey k key value).1.Follows (.set key value :: h) := by
  have hentries : (t.setKey k key value).1.entries = t.entries.eraseP (·.key == k) := by
    unfold Table.setKey
    rw [hvalue]
    rfl
  refine hf.setKey hk ?_ ?_ ?_
  · rw [hentries]
    exact hf.filed.eraseP _
  · unfold Table.items
    rw [hentries, hf.filed.items_eraseP hk, listed, isKey_of_key hk, hvalue]
    exact congrArg (without key) hf.items
  · unfold find?
    rw [hentries, find?_eraseP_self k hf.filed.nodup, hvalue]
    rfl

theorem setKey_value (hf : t.Follows h) (hk : Key.ofValue? key = some k) {value : Value}
    (hvalue : value.isNil = false) : (t.setKey k key value).1.Follows (.set key value :: h) := by
  have hentries : (t.setKey k key value).1.entries =
      putEntry ⟨k, key, t.slotFor value⟩ t.entries := by
    unfold Table.setKey
    rw [hvalue]
    rfl
  refine hf.setKey hk ?_ ?_ ?_
  · rw [hentries]
    refine hf.filed.putEntry hk ?_
    dsimp only
    rwa [t.read_slotFor rfl]
  · unfold Table.items
    rw [hentries, hf.filed.items_putEntry hk, listed, isKey_of_key hk, hvalue, hf.slotFor_eq]
    exact congrArg (including key _) hf.items
  · rw [t.find?_setKey_self k key hvalue, hvalue, hf.slotFor_eq]
    rfl

/-- One more change keeps a table in line with its history. -/
theorem run (hf : t.Follows h) (e : Edit) : (e.run t).Follows (e :: h) := by
  cases e with
  | set key value =>
    cases hk : Key.ofValue? key with
    | none =>
      rw [Edit.run_set_of_not_key t hk]
      exact hf.refused hk value
    | some k =>
      rw [Edit.run_set_of_key t hk]
      cases hvalue : value.isNil with
      | true => exact hf.setKey_nil hk hvalue
      | false => exact hf.setKey_value hk hvalue
  | setMetatable metatable mode => exact ⟨hf.filed, rfl, hf.items, hf.held⟩

end Follows

/-- What a history of changes makes of an empty table has the contents the history leaves. -/
theorem edited_follows (h : List Edit) : (edited h).Follows h := by
  induction h with
  | nil => exact ⟨.nil, rfl, rfl, fun _ _ _ => rfl⟩
  | cons e older ih => exact ih.run e

/-! ## Look-up -/

variable {live : Value → Bool}

theorem get_of_key (t : Table) (live : Value → Bool) (hk : Key.ofValue? key = some k) :
    t.get live key = t.getKey live k := by
  unfold get
  rw [hk]

/-- Reading a key gives what the history left under it, as far as that is still there. -/
theorem Follows.get_eq (hf : t.Follows h) (live : Value → Bool) (key : Value) :
    t.get live key = ((lastHeld key h).map (Slot.read live)).getD .nil := by
  cases hk : Key.ofValue? key with
  | none =>
    -- No key is equal to a value that addresses nothing.
    have hnone (older : List Edit) : lastHeld key older = none := by
      induction older with
      | nil => rfl
      | cons e older ih =>
        cases e with
        | setMetatable => exact ih
        | set k' value =>
          rw [lastHeld, if_neg, ih]
          rw [Bool.and_eq_true]
          rintro ⟨hkey, hraw⟩
          obtain ⟨k, hk'⟩ := Key.exists_ofValue? hkey
          rw [(Key.ofValue?_eq_iff hk').mpr hraw] at hk
          cases hk
    unfold get
    rw [hk, hnone]
    rfl
  | some k =>
    rw [t.get_of_key live hk, ← hf.held key k hk]
    unfold getKey
    cases t.find? k <;> rfl

/-! ## Traversal -/

/-- An item with its value, if that is still there. -/
def liveItem? (live : Value → Bool) (i : Item) : Option (Value × Value) :=
  if (i.2.read live).isNil then none else some (i.1, i.2.read live)

/-- Asking for the entry after a key, and so on to the end, gives these keys and values. -/
inductive Traverses (t : Table) (live : Value → Bool) : Value → List (Value × Value) → Prop
  | done {key : Value} : t.next live key = .ok none → Traverses t live key []
  | step {key k v : Value} {rest : List (Value × Value)} :
    t.next live key = .ok (some (k, v)) → Traverses t live k rest →
      Traverses t live key ((k, v) :: rest)

theorem liveItem?_item (e : Entry) : liveItem? live (item e) =
    if (e.slot.read live).isNil then none else some (e.written, e.slot.read live) := rfl

theorem firstLive_cons (e : Entry) (rest : List Entry) :
    firstLive live (e :: rest) = (liveItem? live (item e)).or (firstLive live rest) := by
  rw [firstLive, liveItem?_item]
  cases (e.slot.read live).isNil <;> rfl

theorem firstLive_eq_none {entries : List Entry} :
    firstLive live entries = none ↔ ∀ e ∈ entries, (e.slot.read live).isNil = true := by
  induction entries with
  | nil => exact iff_of_true rfl (List.forall_mem_nil _)
  | cons e rest ih =>
    rw [firstLive_cons, Option.or_eq_none_iff, ih, List.forall_mem_cons, liveItem?_item]
    refine and_congr_left' ?_
    cases (e.slot.read live).isNil with
    | true => exact iff_of_true rfl rfl
    | false => exact iff_of_false nofun nofun

/-- A table is empty exactly when the traversal ends at once. -/
theorem isEmpty_eq_true : t.isEmpty live = true ↔ t.next live .nil = .ok none := by
  have hnext : t.next live .nil = .ok (firstLive live t.entries) := rfl
  rw [hnext, Except.ok.injEq, firstLive_eq_none]
  exact List.all_eq_true

theorem isNil_of_isKey {v : Value} (hv : v.isKey = true) : v.isNil = false := by
  cases v with
  | nil => cases hv
  | boolean | number | text | table | function | userdata => rfl

namespace Follows

/-- After the key of an entry comes the first of the entries behind it. -/
theorem next_written (hf : t.Follows h) {e : Entry} {before rest : List Entry}
    (hentries : t.entries = before ++ e :: rest) :
    t.next live e.written = .ok (firstLive live rest) := by
  have hmem : e ∈ t.entries := by
    rw [hentries]
    exact List.mem_append_right _ List.mem_cons_self
  have hk := hf.filed.keyed e hmem
  have hindex : t.entries.findIdx? (·.key == e.key) = some before.length := by
    have hnodup := hf.filed.nodup
    rw [hentries, List.map_append, List.map_cons, List.nodup_append] at hnodup
    have hbefore : before.findIdx? (·.key == e.key) = none := by
      rw [List.findIdx?_eq_none_iff]
      intro e' he'
      rw [beq_eq_false_iff_ne]
      exact hnodup.2.2 _ (List.mem_map_of_mem he') _ List.mem_cons_self
    rw [hentries, List.findIdx?_append, hbefore, List.findIdx?_cons, beq_self_eq_true, if_pos rfl,
      Option.map_some, Nat.zero_add]
    rfl
  have hdrop : t.entries.drop (before.length + 1) = rest := by
    rw [hentries, ← List.drop_drop, List.drop_left]
    rfl
  unfold next
  rw [isNil_of_isKey (isKey_of_key hk), if_neg Bool.false_ne_true, hk, Option.bind_some, hindex]
  dsimp only
  rw [hdrop]

/-- From a key on whose successor is the first of some entries at the end, those entries follow. -/
theorem traverses_from (hf : t.Follows h) {before rest : List Entry} {key : Value}
    (hentries : t.entries = before ++ rest) (hkey : t.next live key = .ok (firstLive live rest)) :
    t.Traverses live key ((rest.map item).filterMap (liveItem? live)) := by
  induction rest generalizing before key with
  | nil => exact .done hkey
  | cons e rest ih =>
    have hentries' : t.entries = (before ++ [e]) ++ rest := by rw [hentries, List.append_cons]
    rw [firstLive_cons] at hkey
    rw [List.map_cons, List.filterMap_cons]
    cases hi : liveItem? live (item e) with
    | none =>
      rw [hi] at hkey
      exact ih hentries' hkey
    | some i =>
      rw [hi] at hkey
      have hwritten : i.1 = e.written := by
        unfold liveItem? at hi
        split at hi
        · cases hi
        · rw [← Option.some.inj hi]
          rfl
      refine .step hkey (ih hentries' ?_)
      rw [hwritten]
      exact hf.next_written hentries

/-- The whole traversal: the items whose values are there, in order. -/
theorem traverses (hf : t.Follows h) (live : Value → Bool) :
    t.Traverses live .nil ((listed h).filterMap (liveItem? live)) := by
  rw [← hf.items]
  exact hf.traverses_from (List.nil_append _).symm rfl

/-- A value has no index among the entries exactly when no key is equal to it. -/
theorem findIdx?_eq_none (hf : t.Follows h) (key : Value) :
    ((Key.ofValue? key).bind fun k => t.entries.findIdx? (·.key == k)) = none ↔
      ∀ i ∈ listed h, i.1.rawEqual key = false := by
  rw [← hf.items]
  unfold Table.items
  rw [List.forall_mem_map]
  cases hk : Key.ofValue? key with
  | none =>
    refine iff_of_true rfl fun e he => ?_
    rw [← Bool.not_eq_true, show (item e).1 = e.written from rfl,
      ← Key.ofValue?_eq_iff (hf.filed.keyed e he), hk]
    nofun
  | some k =>
    rw [Option.bind_some, List.findIdx?_eq_none_iff]
    exact forall₂_congr fun e he => by rw [key_beq (hf.filed.keyed e he) hk]; rfl

theorem next_eq_error (hf : t.Follows h) (live : Value → Bool) (key : Value) :
    (∃ e, t.next live key = .error e) ↔
      key ≠ .nil ∧ ∀ i ∈ listed h, i.1.rawEqual key = false := by
  have hnil : key ≠ .nil ↔ key.isNil = false := (beq_eq_false_iff_ne (b := Value.nil)).symm
  rw [hnil, ← hf.findIdx?_eq_none key]
  unfold next
  cases key.isNil with
  | true => exact iff_of_false (fun ⟨_, he⟩ => nomatch he) fun he => nomatch he.1
  | false =>
    rw [if_neg Bool.false_ne_true]
    cases (Key.ofValue? key).bind fun k => t.entries.findIdx? (·.key == k) with
    | none => exact iff_of_true ⟨_, rfl⟩ ⟨rfl, rfl⟩
    | some => exact iff_of_false (fun ⟨_, he⟩ => nomatch he) nofun

/-- No key is listed twice. -/
theorem distinct (hf : t.Follows h) :
    (listed h).Pairwise fun i j => i.1.rawEqual j.1 = false := by
  rw [← hf.items]
  unfold Table.items
  rw [List.pairwise_map]
  refine (List.pairwise_map.mp hf.filed.nodup).imp_of_mem fun {e e'} he he' hne => ?_
  show e.written.rawEqual e'.written = false
  rw [← key_beq (hf.filed.keyed e he) (hf.filed.keyed e' he')]
  exact beq_false_of_ne hne

end Follows

/-! ## Length -/

/-- Counting stops at an integer without a value, or when the fuel is used up. -/
theorem border_spec (t : Table) (live : Value → Bool) {n : Nat}
    (hn : ∀ i < n, (t.getInt live (i + 1)).isNil = false) (fuel : Nat) :
    (∀ i < t.border live n fuel, (t.getInt live (i + 1)).isNil = false) ∧
      ((t.getInt live (t.border live n fuel + 1)).isNil = true ∨
        t.border live n fuel = n + fuel) := by
  induction fuel generalizing n with
  | zero => exact ⟨hn, .inr rfl⟩
  | succ fuel ih =>
    unfold border
    by_cases hnil : (t.getInt live (n + 1)).isNil = true
    · rw [if_pos hnil]
      exact ⟨hn, .inl hnil⟩
    · rw [if_neg hnil]
      have hn' : ∀ i < n + 1, (t.getInt live (i + 1)).isNil = false := by
        intro i hi
        obtain hlt | rfl := Nat.lt_succ_iff_lt_or_eq.mp hi
        · exact hn i hlt
        · exact Bool.eq_false_iff.mpr hnil
      rw [← Nat.add_assoc, Nat.add_right_comm]
      exact ih hn'

/-- The length is the least number after which no value comes. -/
theorem isLeast_length (t : Table) (live : Value → Bool) :
    IsLeast {n : Nat | (t.getInt live (n + 1)).isNil = true} (t.length live) := by
  obtain ⟨hbelow, hend⟩ := t.border_spec live (n := 0) nofun t.entries.length
  refine ⟨?_, fun n hn => Nat.le_of_not_lt fun hlt => ?_⟩
  · obtain hnil | hfuel := hend
    · exact hnil
    · -- With the fuel used up every entry was counted, so that none is left for the next integer.
      by_contra hvalue
      have hle := t.le_length_of_getInt live (n := t.length live + 1) fun i hi => by
        obtain hlt | rfl := Nat.lt_succ_iff_lt_or_eq.mp hi
        · exact hbelow i hlt
        · exact Bool.eq_false_iff.mpr hvalue
      have hlength : t.length live = 0 + t.entries.length := hfuel
      omega
  · have hvalue := hbelow n hlt
    rw [show (t.getInt live (n + 1)).isNil = true from hn] at hvalue
    cases hvalue

/-! ## Tables as ordered maps -/

theorem set_eq_error (t : Table) (key value : Value) :
    (∃ e, t.set key value = .error e) ↔ key.isKey = false := by
  rw [← Key.ofValue?_eq_none]
  unfold Table.set
  cases Key.ofValue? key with
  | none => exact iff_of_true ⟨_, rfl⟩ rfl
  | some k => exact iff_of_false (fun ⟨_, h⟩ => nomatch h) nofun

theorem run_set_eq_setInt (t : Table) (n : Int) (value : Value) :
    (Edit.set (.number (Number.ofInt n)) value).run t = (t.setInt n value).1 := by
  -- The number of an integer is a variable, so that no step of the proof computes it.
  obtain ⟨number, hnumber⟩ : ∃ number, number = Number.ofInt := ⟨_, rfl⟩
  rw [← hnumber]
  cases hk : Key.ofValue? (.number (number n)) with
  | none =>
    rw [Edit.run_set_of_not_key t hk, setInt_def number hnumber]
    dsimp only
    rw [hk]
  | some k => rw [Edit.run_set_of_key t hk, t.setInt_of_key number hnumber hk]

theorem setInt_edited (h : List Edit) (n : Int) (value : Value) :
    ((edited h).setInt n value).1 = edited (.set (.number (Number.ofInt n)) value :: h) := by
  rw [edited, run_set_eq_setInt]

/-- The table is the ordered map that a history of changes leaves, where `live` tells which tables
and userdata are still there. -/
structure OrderedMap (t : Table) (live : Value → Bool) (h : List Edit) : Prop where
  /-- A key reads as the last value that was set for an equal key and not removed since; as nil, if
  the value was held weakly and is gone. -/
  get : ∀ key, t.get live key = ((lastHeld key h).map (Slot.read live)).getD .nil
  /-- An integer that is a number exactly reads as that number. -/
  getInt : ∀ n : Int, n.natAbs ≤ 2 ^ 53 →
    t.getInt live n = t.get live (.number (Number.ofInt n))
  /-- The keys that are refused are nil and NaN. -/
  refused : ∀ key value, (∃ e, t.set key value = .error e) ↔
    key = .nil ∨ ∃ n, key = .number n ∧ n.isNaN = true
  /-- A key that is refused leaves the table as it is. -/
  unchanged : ∀ key value, (∃ e, t.set key value = .error e) → edited (.set key value :: h) = t
  /-- Writing under a text is writing under that value. -/
  setText : ∀ s value, (t.setText s value).1 = edited (.set (.text s) value :: h)
  /-- Writing under an integer is writing under the number nearest to it. -/
  setInt : ∀ n value, (t.setInt n value).1 = edited (.set (.number (Number.ofInt n)) value :: h)
  /-- The keys are those that were set and not removed, in the order in which they came in. -/
  items : t.items = listed h
  /-- A write of nil removes the key, and the others keep their order. -/
  removed : ∀ key, key.isKey = true → (edited (.set key .nil :: h)).items = without key t.items
  /-- A value is written in the place of an equal key, or else at the end. -/
  included : ∀ key value, key.isKey = true → value.isNil = false →
    (edited (.set key value :: h)).items = including key (t.slotFor value) t.items
  /-- No two keys are equal. -/
  distinct : (listed h).Pairwise fun i j => i.1.rawEqual j.1 = false
  /-- Asking for the next entry, from nil on, gives each key whose value is there once, in order,
  and ends. -/
  traverses : t.Traverses live .nil ((listed h).filterMap (liveItem? live))
  /-- Asking fails for the values other than nil that are no keys of the table. -/
  next_fails : ∀ key, (∃ e, t.next live key = .error e) ↔
    key ≠ .nil ∧ ∀ i ∈ listed h, i.1.rawEqual key = false
  /-- The table is empty if the traversal ends at once. -/
  isEmpty : t.isEmpty live = true ↔ t.next live .nil = .ok none
  /-- The length is the least number after which no value comes. -/
  length : IsLeast {n : Nat | (t.getInt live (n + 1)).isNil = true} (t.length live)

/-- Every history of changes makes the ordered map that it says, whichever values are still
there. -/
theorem edited_ordered_map (h : List Edit) (live : Value → Bool) :
    (edited h).OrderedMap live h := by
  have hf := edited_follows h
  exact {
    get := hf.get_eq live
    getInt := fun n hn => (get_of_key _ live (Key.ofValue?_ofInt hn)).symm
    refused := fun key value => by
      rw [set_eq_error]
      cases key with
      | nil => exact iff_of_true rfl (.inl rfl)
      | number n => simp [Value.isKey]
      | boolean | text | table | function | userdata => simp [Value.isKey]
    unchanged := fun key value herror =>
      Edit.run_set_of_not_key _ (Key.ofValue?_eq_none.mpr ((set_eq_error _ key value).mp herror)) _
    setText := fun _ _ => rfl
    setInt := setInt_edited h
    items := hf.items
    removed := fun key hkey => by
      rw [hf.items, (edited_follows (.set key .nil :: h)).items, listed, hkey]
      rfl
    included := fun key value hkey hvalue => by
      rw [hf.items, hf.slotFor_eq, (edited_follows (.set key value :: h)).items, listed, hkey,
        hvalue]
      rfl
    distinct := hf.distinct
    traverses := hf.traverses live
    next_fails := hf.next_eq_error live
    isEmpty := isEmpty_eq_true
    length := isLeast_length _ live }

-- A key that is set again keeps its place; one that was removed before comes last.
example :
    let a := Value.text "a"
    let b := Value.text "b"
    let h : List Edit := [.set b (.boolean true), .set a (.boolean false), .set a (.boolean true)]
    (listed h).map Prod.fst = [a, b] ∧
      (listed (.set a (.boolean true) :: .set a .nil :: h)).map Prod.fst = [b, a] := by
  decide

end Table

end ScriptBridge
