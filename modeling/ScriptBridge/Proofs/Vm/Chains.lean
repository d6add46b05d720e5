import ScriptBridge.Proofs.Vm.OrderedMap
import ScriptBridge.Proofs.Vm.Reference
import ScriptBridge.Script.Run

/-!
# Chains of tables

Where tables are linked by tables under `__index` and `__newindex`, reading and writing walk the
same kind of chain: from table to table, up to the first that has the key or has no link, and over
a hundred tables at most.

1. `World.walk` is that walk, and `World.walk_eq_some` says where it ends. It runs along a field of
   the metatables, whichever that is.
2. `lookUp_eq_walk` and `findTarget_eq_walk`: the two searches of a key are this walk.
3. `World.isSome_along`: a chain that comes back to a table has no end.
4. `index_eq` and `assign_eq`: what reading and assigning do then.
5. `chains_followed` puts them together, for any world of linked tables.
-/

namespace ScriptBridge

namespace World

/-! ## Links -/

/-- Whether a table has a value under a key. -/
def has (w : World) (key : Value) (t : TableRef) : Bool :=
  !((w.table t).get w.isLive key).isNil

/-- The table that a field of a table's metatable leads to. -/
def linked? (w : World) (field : String) (t : TableRef) : Option TableRef :=
  match w.metafieldOf (.table t) field with
  | .table u => some u
  | _ => none

/-- A field of the metatables holds tables of the heap only. -/
def TableLinked (w : World) (field : String) : Prop :=
  ∀ t, w.metafieldOf (.table t) field = .nil ∨
    ∃ u, w.metafieldOf (.table t) field = .table u ∧ w.isLive (.table u) = true

/-- The table that is a number of links on. -/
def along (w : World) (field : String) : Nat → TableRef → Option TableRef
  | 0, t => some t
  | n + 1, t => (w.linked? field t).bind (along w field n)

/-- From a table on, the first one that has a key or has no link is this one, a number of links
on. -/
structure EndsAt (w : World) (field : String) (key : Value) (t : TableRef) (n : Nat)
    (u : TableRef) : Prop where
  reached : w.along field n t = some u
  ends : w.has key u = true ∨ w.linked? field u = none
  first : ∀ m < n, ∀ v, w.along field m t = some v → w.has key v = false

variable {w : World} {field : String} {key : Value} {t u v : TableRef} {n fuel : Nat}

theorem along_add (m n : Nat) (t : TableRef) :
    w.along field (m + n) t = (w.along field m t).bind (w.along field n) := by
  induction m generalizing t with
  | zero => rw [Nat.zero_add, along, Option.bind_some]
  | succ m ih =>
    rw [Nat.succ_add, along, along, Option.bind_assoc]
    exact congrArg _ (funext ih)

theorem endsAt_zero :
    w.EndsAt field key t 0 u ↔ t = u ∧ (w.has key t = true ∨ w.linked? field t = none) := by
  constructor
  · intro h
    obtain rfl : t = u := Option.some.inj h.reached
    exact ⟨rfl, h.ends⟩
  · rintro ⟨rfl, hends⟩
    exact ⟨rfl, hends, nofun⟩

theorem endsAt_succ : w.EndsAt field key t (n + 1) u ↔
    w.has key t = false ∧ ∃ v, w.linked? field t = some v ∧ w.EndsAt field key v n u := by
  constructor
  · intro h
    obtain ⟨v, hv, hreached⟩ := Option.bind_eq_some_iff.mp h.reached
    refine ⟨h.first 0 n.succ_pos t rfl, v, hv, hreached, h.ends, fun m hm x hx => ?_⟩
    exact h.first (m + 1) (Nat.succ_lt_succ hm) x (by rw [along, hv]; exact hx)
  · rintro ⟨hkey, v, hv, h⟩
    refine ⟨by rw [along, hv]; exact h.reached, h.ends, fun m hm x hx => ?_⟩
    cases m with
    | zero =>
      obtain rfl : t = x := Option.some.inj hx
      exact hkey
    | succ m =>
      rw [along, hv] at hx
      exact h.first m (Nat.lt_of_succ_lt_succ hm) x hx

/-! ## The walk -/

/-- Walks along a field of the metatables, to the first table that has a key or has no link. -/
def walk (w : World) (field : String) (key : Value) : Nat → TableRef → Option TableRef
  | 0, _ => none
  | fuel + 1, t =>
    if w.has key t then some t
    else
      match w.linked? field t with
      | none => some t
      | some u => walk w field key fuel u

/-- A walk ends at the table where the chain ends for the key, if it gets there in time. -/
theorem walk_eq_some :
    w.walk field key fuel t = some u ↔ ∃ n < fuel, w.EndsAt field key t n u := by
  induction fuel generalizing t with
  | zero => exact iff_of_false nofun nofun
  | succ fuel ih =>
    -- The chain ends here, or at a table of the chain from the next one on.
    rw [Nat.exists_lt_succ_left, endsAt_zero, walk]
    cases hhas : w.has key t with
    | true =>
      have hsucc : ¬ ∃ n < fuel, w.EndsAt field key t (n + 1) u := by
        rintro ⟨n, -, h⟩
        have hkey := (endsAt_succ.mp h).1
        rw [hhas] at hkey
        cases hkey
      rw [if_pos rfl, Option.some.injEq, or_iff_left hsucc]
      exact (and_iff_left (.inl rfl)).symm
    | false =>
      rw [if_neg Bool.false_ne_true]
      simp only [endsAt_succ, hhas, Bool.false_eq_true, false_or, true_and]
      cases hlink : w.linked? field t with
      | none => simp
      | some v => simp [ih]

theorem walk_eq_none :
    w.walk field key fuel t = none ↔ ∀ n < fuel, ∀ u, ¬ w.EndsAt field key t n u := by
  rw [Option.eq_none_iff_forall_ne_some]
  simp only [ne_eq, walk_eq_some]
  exact ⟨fun h n hn u hu => h u ⟨n, hn, hu⟩, fun h u ⟨n, hn, hu⟩ => h n hn u hu⟩

theorem linked?_of_table (h : w.metafieldOf (.table t) field = .table u) :
    w.linked? field t = some u := by
  unfold linked?
  rw [h]

theorem linked?_of_nil (h : w.metafieldOf (.table t) field = .nil) :
    w.linked? field t = none := by
  unfold linked?
  rw [h]

/-- The stack of the machine plays no part in a walk. -/
theorem walk_machine (w : World) (m : Machine) (field : String) (key : Value) (fuel : Nat)
    (t : TableRef) :
    walk { w with machine := m } field key fuel t = w.walk field key fuel t := by
  have hhas (t : TableRef) : has { w with machine := m } key t = w.has key t := rfl
  have hlinked (t : TableRef) : linked? { w with machine := m } field t = w.linked? field t := rfl
  induction fuel generalizing t with
  | zero => rfl
  | succ fuel ih =>
    unfold walk
    rw [hhas, hlinked]
    cases w.linked? field t with
    | none => rfl
    | some u => exact congrArg (ite _ (some t)) (ih u)

/-- Without a value the table reads as nil. -/
theorem get_of_not_has (h : w.has key t = false) : (w.table t).get w.isLive key = .nil := by
  unfold has at h
  rw [Bool.not_eq_false'] at h
  exact beq_iff_eq.mp h

/-- Reading is a walk along `__index`. -/
theorem lookUp_eq_walk (hlinked : w.TableLinked "__index") (key : Value) (fuel : Nat)
    (t : TableRef) : w.lookUp key fuel (.table t) =
      match w.walk "__index" key fuel t with
      | some u => .value ((w.table u).get w.isLive key)
      | none => .tooLong := by
  induction fuel generalizing t with
  | zero => rfl
  | succ fuel ih =>
    unfold lookUp walk
    dsimp only
    -- The search tests for a value where the walk asks for the key.
    have hnil : (!((w.table t).get w.isLive key).isNil) = w.has key t := rfl
    rw [hnil]
    cases hhas : w.has key t with
    | true => rfl
    | false =>
      rw [if_neg Bool.false_ne_true, if_neg Bool.false_ne_true]
      obtain hlink | ⟨u, hlink, -⟩ := hlinked t
      · rw [hlink, linked?_of_nil hlink]
        dsimp only
        rw [get_of_not_has hhas]
      · rw [hlink, linked?_of_table hlink]
        exact ih u

/-- The table to write is found by a walk along `__newindex`. -/
theorem findTarget_eq_walk (hlinked : w.TableLinked "__newindex") (key : Value) (fuel : Nat)
    (t : TableRef) : w.findTarget key fuel (.table t) =
      match w.walk "__newindex" key fuel t with
      | some u => .table u
      | none => .tooLong := by
  induction fuel generalizing t with
  | zero => rfl
  | succ fuel ih =>
    unfold findTarget walk
    dsimp only
    have hnil : (!((w.table t).get w.isLive key).isNil) = w.has key t := rfl
    rw [hnil]
    cases hhas : w.has key t with
    | true => rfl
    | false =>
      rw [if_neg Bool.false_ne_true]
      obtain hlink | ⟨u, hlink, -⟩ := hlinked t
      · rw [hlink, linked?_of_nil hlink]
      · rw [hlink, linked?_of_table hlink]
        exact ih u

/-- All tables of a chain are in the heap if the first one is. -/
theorem isLive_along (hlinked : w.TableLinked field) (ht : w.isLive (.table t) = true)
    (h : w.along field n t = some u) : w.isLive (.table u) = true := by
  induction n generalizing t with
  | zero =>
    obtain rfl : t = u := Option.some.inj h
    exact ht
  | succ n ih =>
    obtain ⟨v, hv, hreached⟩ := Option.bind_eq_some_iff.mp h
    obtain hlink | ⟨v', hlink, hlive⟩ := hlinked t
    · rw [linked?_of_nil hlink] at hv
      cases hv
    · rw [linked?_of_table hlink] at hv
      obtain rfl := Option.some.inj hv
      exact ih hlive hreached

/-! ## Cycles -/

/-- A chain that comes back to a table has no end. -/
theorem isSome_along {p : Nat} (hreached : w.along field n t = some u) (hp : 0 < p)
    (hback : w.along field p u = some u) (m : Nat) : (w.along field m t).isSome = true := by
  have hround (k : Nat) : w.along field (n + k * p) t = some u := by
    induction k with
    | zero => rwa [Nat.zero_mul, Nat.add_zero]
    | succ k ih => rw [Nat.succ_mul, ← Nat.add_assoc, along_add, ih, Option.bind_some, hback]
  -- Within `m` rounds the chain has passed `m` links.
  obtain ⟨rest, hrest⟩ : ∃ rest, n + m * p = m + rest :=
    Nat.exists_eq_add_of_le (Nat.le_add_left_of_le (Nat.le_mul_of_pos_right m hp))
  have hlater := hround m
  rw [hrest, along_add] at hlater
  obtain ⟨v, hv, -⟩ := Option.bind_eq_some_iff.mp hlater
  rw [hv]
  rfl

/-- A walk in a cycle none of whose tables has the key does not end. -/
theorem not_endsAt_of_cycle {p : Nat} (hreached : w.along field n t = some u) (hp : 0 < p)
    (hback : w.along field p u = some u)
    (hwithout : ∀ m v, w.along field m t = some v → w.has key v = false) (m : Nat)
    (v : TableRef) : ¬ w.EndsAt field key t m v := by
  intro h
  obtain hhas | hlink := h.ends
  · rw [hwithout m v h.reached] at hhas
    cases hhas
  · have hsome := isSome_along hreached hp hback (m + 1)
    rw [along_add, h.reached, Option.bind_some, along, hlink] at hsome
    cases hsome

end World

/-! ## Reading and assigning -/

variable {w : World} {key value : Value} {t u : TableRef}

theorem raiseAt_eq {α : Type} (level : Nat) (message : String) (w : World) :
    (raiseAt level message : Script α) w =
      .error (.runtime (.text (w.machine.location w.functions level ++ message))) w := rfl

/-- Reading changes nothing. -/
theorem index_eq (E : Engine) (hlinked : w.TableLinked "__index") (t : TableRef) (key : Value) :
    index E (.table t) key w =
      match w.walk "__index" key World.chainLimit t with
      | some u => .ok ((w.table u).get w.isLive key) w
      | none => .error (.runtime (.text (w.machine.location w.functions 0 ++
          "'__index' chain too long; possible loop"))) w := by
  unfold index
  rw [get_bind, World.lookUp_eq_walk hlinked]
  cases w.walk "__index" key World.chainLimit t with
  | some u => rfl
  | none => exact raiseAt_eq 0 _ w

/-- Assigning is a write into the table where the walk ends. -/
theorem assign_eq (E : Engine) (hlinked : w.TableLinked "__newindex") (t : TableRef)
    (key value : Value) : assign E (.table t) key value w =
      match w.walk "__newindex" key World.chainLimit t with
      | some u => rawSet u key value w
      | none => .error (.runtime (.text (w.machine.location w.functions 0 ++
          "'__newindex' chain too long; possible loop")))
        { w with dropped := w.dropped ++ (value.refs ++ key.refs).map (⟨·, none⟩) } := by
  unfold assign
  rw [get_bind, World.findTarget_eq_walk hlinked]
  cases w.walk "__newindex" key World.chainLimit t with
  | some u => rfl
  | none =>
    dsimp only
    rw [lift_bind, discard_eq]
    exact raiseAt_eq 0 _ _

/-! ## One write -/

/-- A table was written under a key, and nothing else was written. -/
structure World.WroteAt (w w' : World) (u : TableRef) (key value : Value) : Prop where
  /-- Beside the tables only the machine and the notes of what was let go of may differ. -/
  rest : ∃ m dropped, w' = { w with machine := m, tables := w'.tables, dropped := dropped }
  /-- Every other table is as it was. -/
  others : ∀ v, v ≠ u → w'.tables.get? v.index = w.tables.get? v.index
  /-- The table has changed as by a raw write under the key. -/
  target : w'.table u = (Table.Edit.set key value).run (w.table u)
  metatable : (w'.table u).metatable = (w.table u).metatable
  /-- The key reads as the value. Removing it takes that no key is filed twice. -/
  at_key : value.isNil = false ∨ ((w.table u).entries.map Entry.key).Nodup →
    ∀ key', key.rawEqual key' = true → (w'.table u).get w'.isLive key' = value
  /-- Every other key reads as before. -/
  other_keys : ∀ key', key.rawEqual key' = false →
    (w'.table u).get w'.isLive key' = (w.table u).get w.isLive key'

namespace Table

variable {k : Key} {key' : Value} {live : Value → Bool} {t : Table}

/-- What was written under a key is read back, if it is not held weakly or still there. -/
theorem get_setKey_self (key : Value) (hk' : Key.ofValue? key' = some k) (hlive : live value = true)
    (hremoved : value.isNil = false ∨ (t.entries.map Entry.key).Nodup) :
    (t.setKey k key value).1.get live key' = value := by
  rw [get_of_key _ live hk']
  unfold getKey
  cases hvalue : value.isNil with
  | false =>
    rw [t.find?_setKey_self k key hvalue]
    exact t.read_slotFor hlive
  | true =>
    obtain hvalue' | hnodup := hremoved
    · rw [hvalue] at hvalue'
      cases hvalue'
    · have hfind : (t.setKey k key value).1.find? k = none := by
        unfold setKey
        rw [hvalue]
        exact find?_eraseP_self k hnodup
      rw [hfind]
      exact (beq_iff_eq.mp hvalue).symm

theorem get_setKey_of_ne (hk : Key.ofValue? key = some k) (hne : key.rawEqual key' = false) :
    (t.setKey k key value).1.get live key' = t.get live key' := by
  cases hk' : Key.ofValue? key' with
  | none =>
    unfold get
    rw [hk']
  | some k' =>
    have hkk : k ≠ k' := by
      rintro rfl
      rw [(Key.ofValue?_eq_iff hk).mp hk'] at hne
      cases hne
    rw [get_of_key _ live hk', get_of_key _ live hk']
    unfold getKey
    rw [t.find?_setKey_of_ne hkk]

end Table

/-- A raw write under a key writes one table of the heap. -/
theorem rawSet_wrote (hkey : key.isKey = true) (hvalue : w.isLive value = true)
    (hu : w.isLive (.table u) = true) :
    ∃ w', rawSet u key value w = .ok () w' ∧ w'.machine = w.machine ∧
      w.WroteAt w' u key value := by
  obtain ⟨k, hk⟩ := Key.exists_ofValue? hkey
  have hset : (w.table u).set key value = .ok ((w.table u).setKey k key value) := by
    unfold Table.set
    rw [hk]
  refine ⟨_, rawSet_of_ok hset, rfl, ?_⟩
  have htarget := World.table_withTable (Option.isSome_iff_exists.mp hu)
    ((w.table u).setKey k key value).1
    (((w.table u).setKey k key value).2.flatMap Value.refs ++ (key.refs ++ value.refs))
  exact {
    rest := ⟨_, _, rfl⟩
    others := fun v hv => World.get?_withTable_of_ne hv _ _
    target := by rw [htarget, Table.Edit.run_set_of_key _ hk]
    metatable := by
      rw [htarget]
      rfl
    at_key := fun hremoved key' hraw => by
      rw [htarget, World.isLive_withTable]
      exact Table.get_setKey_self key ((Key.ofValue?_eq_iff hk).mpr hraw) hvalue hremoved
    other_keys := fun key' hraw => by
      rw [htarget, World.isLive_withTable]
      exact Table.get_setKey_of_ne hk hraw }

/-! ## The operations on the stack -/

/-- What reading a key of a table does, where `m` is the machine once the key was taken. -/
structure World.ReadsChain (w : World) (m : Machine) (t : TableRef) (key : Value)
    (outcome : EStateM.Result Raise World Unit) : Prop where
  /-- If a table on the chain has the key, the value is that of the first. -/
  found : ∀ n < chainLimit, ∀ u, w.EndsAt "__index" key t n u → w.has key u = true →
    ∃ w', outcome = .ok () w' ∧ w'.machine = m.push ((w.table u).get w.isLive key)
  /-- If the chain ends without the key, the value is nil. -/
  ended : ∀ n < chainLimit, ∀ u, w.EndsAt "__index" key t n u → w.has key u = false →
    ∃ w', outcome = .ok () w' ∧ w'.machine = m.push .nil
  /-- An error is raised exactly if neither happens within the limit. -/
  raises : (∃ e w', outcome = .error e w') ↔
    ∀ n < chainLimit, ∀ u, ¬ w.EndsAt "__index" key t n u
  /-- A chain that comes back to a table, and on which no table has the key, raises. -/
  cycle : ∀ n p u, w.along "__index" n t = some u → 0 < p → w.along "__index" p u = some u →
    (∀ m v, w.along "__index" m t = some v → w.has key v = false) → ∃ e w', outcome = .error e w'
  error : ∀ e w', outcome = .error e w' →
    e = .runtime (.text (m.location w.functions 0 ++
      "'__index' chain too long; possible loop")) ∧ w'.machine = m
  /-- No table is changed, and nothing else but the stack; the key is let go of. -/
  unchanged : ∃ m' dropped, worldAfter outcome = { w with machine := m', dropped := dropped }

/-- What assigning a key of a table does, where `m` is the machine once the value and the key were
taken. -/
structure World.WritesChain (w : World) (m : Machine) (t : TableRef) (key value : Value)
    (outcome : EStateM.Result Raise World Unit) : Prop where
  /-- The first table on the chain that has the key, or has no link, is written. -/
  written : ∀ n < chainLimit, ∀ u, w.EndsAt "__newindex" key t n u →
    ∃ w', outcome = .ok () w' ∧ w'.machine = m ∧ w.WroteAt w' u key value
  /-- An error is raised exactly if there is none within the limit. -/
  raises : (∃ e w', outcome = .error e w') ↔
    ∀ n < chainLimit, ∀ u, ¬ w.EndsAt "__newindex" key t n u
  /-- A chain that comes back to a table, and on which no table has the key, raises. -/
  cycle : ∀ n p u, w.along "__newindex" n t = some u → 0 < p →
    w.along "__newindex" p u = some u →
    (∀ m v, w.along "__newindex" m t = some v → w.has key v = false) →
    ∃ e w', outcome = .error e w'
  /-- With an error no table is changed; the value and the key are let go of. -/
  error : ∀ e w', outcome = .error e w' →
    e = .runtime (.text (m.location w.functions 0 ++
      "'__newindex' chain too long; possible loop")) ∧
    ∃ dropped, w' = { w with machine := m, dropped := dropped }

theorem popValue_of_machine {v : Value} {m : Machine} (h : w.machine.popValue = (v, m)) :
    popValue w = (v, { w with machine := m }) := by
  show ((w.machine.popValue).1, { w with machine := (w.machine.popValue).2 }) = _
  rw [h]

section

variable {m m' : Machine} {i : Int} (E : Engine)

theorem valueAt_eq (i : Int) (w : World) : valueAt i w = (w.machine.value i, w) := rfl

theorem runGetTable_eq (hlinked : w.TableLinked "__index")
    (hposition : w.machine.value i = .table t) (hpop : w.machine.popValue = (key, m)) :
    runGetTable E i w =
      match w.walk "__index" key World.chainLimit t with
      | some u => .ok () { w with
          machine := m.push ((w.table u).get w.isLive key)
          dropped := w.dropped ++ key.refs.map (⟨·, none⟩) }
      | none => .error (.runtime (.text (m.location w.functions 0 ++
          "'__index' chain too long; possible loop"))) { w with
          machine := m
          dropped := w.dropped ++ key.refs.map (⟨·, none⟩) } := by
  -- The key is off the stack when it is read, which makes no difference to the walk.
  have hindex := index_eq E (w := { w with machine := m }) hlinked t key
  rw [World.walk_machine] at hindex
  unfold runGetTable
  rw [lift_bind, valueAt_eq, hposition, lift_bind, popValue_of_machine hpop, lift_bind]
  dsimp only
  cases hwalk : w.walk "__index" key World.chainLimit t with
  | some u =>
    rw [hwalk] at hindex
    rw [attempt_of_ok hindex, lift_bind, discard_eq]
    rfl
  | none =>
    rw [hwalk] at hindex
    rw [attempt_of_error hindex, lift_bind, discard_eq]
    rfl

theorem runSetTable_eq (hlinked : w.TableLinked "__newindex")
    (hposition : w.machine.value i = .table t) (hpop : w.machine.popValue = (value, m))
    (hpop' : m.popValue = (key, m')) : runSetTable E i w =
      match w.walk "__newindex" key World.chainLimit t with
      | some u => rawSet u key value { w with machine := m' }
      | none => .error (.runtime (.text (m'.location w.functions 0 ++
          "'__newindex' chain too long; possible loop"))) { w with
          machine := m'
          dropped := w.dropped ++ (value.refs ++ key.refs).map (⟨·, none⟩) } := by
  have hassign := assign_eq E (w := { w with machine := m' }) hlinked t key value
  rw [World.walk_machine] at hassign
  unfold runSetTable
  rw [lift_bind, valueAt_eq, hposition, lift_bind, popValue_of_machine hpop, lift_bind,
    popValue_of_machine (w := { w with machine := m }) hpop']
  exact hassign

theorem runGetTable_readsChain (hlinked : w.TableLinked "__index")
    (hposition : w.machine.value i = .table t) (hpop : w.machine.popValue = (key, m)) :
    w.ReadsChain m t key (runGetTable E i w) := by
  have hrun := runGetTable_eq E hlinked hposition hpop
  have hends {n : Nat} {u : TableRef} (hn : n < World.chainLimit)
      (h : w.EndsAt "__index" key t n u) : runGetTable E i w = .ok () { w with
        machine := m.push ((w.table u).get w.isLive key)
        dropped := w.dropped ++ key.refs.map (⟨·, none⟩) } := by
    rw [hrun, World.walk_eq_some.mpr ⟨n, hn, h⟩]
  have hraises : (∃ e w', runGetTable E i w = .error e w') ↔
      ∀ n < World.chainLimit, ∀ u, ¬ w.EndsAt "__index" key t n u := by
    rw [← World.walk_eq_none, hrun]
    cases w.walk "__index" key World.chainLimit t with
    | some u => exact iff_of_false (fun ⟨_, _, h⟩ => nomatch h) nofun
    | none => exact iff_of_true ⟨_, _, rfl⟩ rfl
  exact {
    found := fun n hn u h _ => ⟨_, hends hn h, rfl⟩
    ended := fun n hn u h hhas => by
      refine ⟨_, hends hn h, ?_⟩
      rw [World.get_of_not_has hhas]
    raises := hraises
    cycle := fun n p u hreached hp hback hwithout => hraises.mpr fun k _ v =>
      World.not_endsAt_of_cycle hreached hp hback hwithout k v
    error := fun e w' h => by
      rw [hrun] at h
      split at h
      · cases h
      · cases h
        exact ⟨rfl, rfl⟩
    unchanged := by
      rw [hrun]
      split <;> exact ⟨_, _, rfl⟩ }

/-- If the walk ends at a table of the heap, that one is written. -/
theorem runSetTable_of_some (hlinked : w.TableLinked "__newindex") (hkey : key.isKey = true)
    (hvalue : w.isLive value = true) (hu : w.isLive (.table u) = true)
    (hposition : w.machine.value i = .table t) (hpop : w.machine.popValue = (value, m))
    (hpop' : m.popValue = (key, m'))
    (hwalk : w.walk "__newindex" key World.chainLimit t = some u) :
    ∃ w', runSetTable E i w = .ok () w' ∧ w'.machine = m' ∧ w.WroteAt w' u key value := by
  obtain ⟨w', hw', hmachine, hwrote⟩ :=
    rawSet_wrote (w := { w with machine := m' }) hkey hvalue hu
  obtain ⟨machine, dropped, hrest⟩ := hwrote.rest
  refine ⟨w', ?_, hmachine, ⟨⟨machine, dropped, hrest⟩, hwrote.others, hwrote.target,
    hwrote.metatable, hwrote.at_key, hwrote.other_keys⟩⟩
  rw [runSetTable_eq E hlinked hposition hpop hpop', hwalk]
  exact hw'

theorem runSetTable_writesChain (hlinked : w.TableLinked "__newindex")
    (ht : w.isLive (.table t) = true) (hkey : key.isKey = true) (hvalue : w.isLive value = true)
    (hposition : w.machine.value i = .table t) (hpop : w.machine.popValue = (value, m))
    (hpop' : m.popValue = (key, m')) : w.WritesChain m' t key value (runSetTable E i w) := by
  have hrun := runSetTable_eq E hlinked hposition hpop hpop'
  -- A raw write needs its table in the heap, where a chain stays that starts there.
  have hwritten {n : Nat} {u : TableRef} (hn : n < World.chainLimit)
      (h : w.EndsAt "__newindex" key t n u) :
      ∃ w', runSetTable E i w = .ok () w' ∧ w'.machine = m' ∧ w.WroteAt w' u key value :=
    runSetTable_of_some E hlinked hkey hvalue (World.isLive_along hlinked ht h.reached) hposition
      hpop hpop' (World.walk_eq_some.mpr ⟨n, hn, h⟩)
  have hraises : (∃ e w', runSetTable E i w = .error e w') ↔
      ∀ n < World.chainLimit, ∀ u, ¬ w.EndsAt "__newindex" key t n u := by
    constructor
    · rintro ⟨e, w', herror⟩ n hn u h
      obtain ⟨w'', hok, -⟩ := hwritten hn h
      rw [hok] at herror
      cases herror
    · intro h
      rw [hrun, World.walk_eq_none.mpr h]
      exact ⟨_, _, rfl⟩
  exact {
    written := fun n hn u h => hwritten hn h
    raises := hraises
    cycle := fun n p u hreached hp hback hwithout => hraises.mpr fun k _ v =>
      World.not_endsAt_of_cycle hreached hp hback hwithout k v
    error := fun e w' h => by
      have hnone := World.walk_eq_none.mpr (hraises.mp ⟨e, w', h⟩)
      rw [hrun, hnone] at h
      cases h
      exact ⟨rfl, _, rfl⟩ }

/-- In a world whose tables are linked by tables only, reading and assigning a key of a table follow
its chain. -/
theorem chains_followed (hindex : w.TableLinked "__index") (hnewindex : w.TableLinked "__newindex")
    (ht : w.isLive (.table t) = true) (hkey : key.isKey = true)
    (hposition : w.machine.value i = .table t) :
    (∀ m, w.machine.popValue = (key, m) → w.ReadsChain m t key (runGetTable E i w)) ∧
    ∀ value m m', w.isLive value = true → w.machine.popValue = (value, m) →
      m.popValue = (key, m') → w.WritesChain m' t key value (runSetTable E i w) :=
  ⟨fun _ hpop => runGetTable_readsChain E hindex hposition hpop,
    fun _ _ _ hvalue hpop hpop' =>
      runSetTable_writesChain E hnewindex ht hkey hvalue hposition hpop hpop'⟩

end

/-- A table that is linked to another one, which has the key `k`. -/
def World.linkedPair : World where
  tables := ⟨#[
    some { metatable := some ⟨2⟩ },
    some { entries := [⟨.text "k", .text "k", .strong (.boolean true)⟩] },
    some { entries := [
      ⟨.text "__index", .text "__index", .strong (.table ⟨1⟩)⟩,
      ⟨.text "__newindex", .text "__newindex", .strong (.table ⟨1⟩)⟩] }]⟩
  machine := {
    id := 0
    stack := #[.table ⟨0⟩, .text "k", .text "k"]
    registry := ⟨3⟩
    globals := ⟨3⟩ }

/-- The first table of the pair is linked to the second, which is linked to none. -/
theorem World.linkedPair_linked (field : String)
    (h : linkedPair.fieldOf ⟨2⟩ field = .table ⟨1⟩) : linkedPair.TableLinked field := by
  rintro ⟨_ | _ | _ | n⟩
  · exact .inr ⟨⟨1⟩, h, by decide⟩
  · exact .inl rfl
  · exact .inl rfl
  · have hnone : linkedPair.tables.get? (n + 3) = none :=
      Store.get?_eq_none _ (Nat.le_add_left 3 n)
    refine .inl ?_
    unfold metafieldOf metatableOf table
    dsimp only
    rw [hnone]
    rfl

theorem chains_followed_pair :
    (∃ w', runGetTable (.ofDepth 0) 1 World.linkedPair = .ok () w' ∧
      w'.machine.stack.toList = [.table ⟨0⟩, .text "k", .boolean true]) ∧
    ∃ w', runSetTable (.ofDepth 0) 1 World.linkedPair = .ok () w' ∧
      World.linkedPair.WroteAt w' ⟨1⟩ (.text "k") (.text "k") := by
  have hindex := World.linkedPair_linked "__index" (by decide)
  have hnewindex := World.linkedPair_linked "__newindex" (by decide)
  have hends {field : String} (h : World.linkedPair.linked? field ⟨0⟩ = some ⟨1⟩) :
      World.linkedPair.EndsAt field (.text "k") ⟨0⟩ 1 ⟨1⟩ :=
    World.endsAt_succ.mpr ⟨by decide, ⟨1⟩, h, World.endsAt_zero.mpr ⟨rfl, .inl (by decide)⟩⟩
  obtain ⟨hread, hwrite⟩ := chains_followed (.ofDepth 0) (t := ⟨0⟩) (i := 1) hindex hnewindex
    (by decide) (show (Value.text "k").isKey = true from rfl) (by decide)
  obtain ⟨w₁, hrun, hmachine⟩ :=
    (hread _ rfl).found 1 (by decide) ⟨1⟩ (hends (by decide)) (by decide)
  obtain ⟨w₂, hrun', -, hwrote⟩ :=
    (hwrite (.text "k") _ _ rfl rfl rfl).written 1 (by decide) ⟨1⟩ (hends (by decide))
  refine ⟨⟨w₁, hrun, ?_⟩, w₂, hrun', hwrote⟩
  rw [hmachine]
  decide

end ScriptBridge
