import ScriptBridge.Host.Registry
import ScriptBridge.Proofs.Dictionary

/-!
# Ids are given once

A registry that is reached through any number of clones, and what it says after any sequence of
exposing, revoking and clearing:

* both directions agree and have the same size, and exposing an object twice gives one id;
* a new id is greater than every id given before, so an id names one object for ever;
* an id finds its object until it is revoked or the registry cleared, and nothing afterwards.

The two directions are kept in step: `Registry.Paired` says that the one is the other read
backwards, so every address of the one belongs to an object that the other keeps alive. As an
object that is alive shares its address with no other that is alive (`Registry.Apart`), a new
object cannot be taken for one that is registered. That every id given so far is at most `lastId`
carries freshness over clearing.
-/

namespace ScriptBridge

namespace Registry

variable {layout : Layout} {r : Registry} {id : Nat} {o : ObjectRef}

/-! ## Operations -/

theorem expose_of_some (h : r.idOf? layout o = some id) : r.expose layout o = (id, r) := by
  unfold expose
  rw [h]

theorem expose_of_none (h : r.idOf? layout o = none) :
    r.expose layout o =
      (r.lastId + 1, { lastId := r.lastId + 1, objects := r.objects.insert (r.lastId + 1) o,
                       ids := r.ids.insert (layout o) (r.lastId + 1) }) := by
  unfold expose
  rw [h]

theorem revoke_of_some (h : r.resolve? id = some o) :
    r.revoke layout id =
      (some o, { r with objects := r.objects.erase id, ids := r.ids.erase (layout o) }) := by
  unfold revoke
  rw [h]

theorem revoke_of_none (h : r.resolve? id = none) : r.revoke layout id = (none, r) := by
  unfold revoke
  rw [h]

/-! ## Both directions -/

/-- No other object of the registry is where the object is. The registry keeps its objects alive,
so this holds of every object that is alive itself. -/
def Apart (layout : Layout) (r : Registry) (o : ObjectRef) : Prop :=
  ∀ id o', r.resolve? id = some o' → layout o' = layout o → o' = o

/-- Ids and objects are paired off: the ids of objects are the objects of ids read backwards, no
id and no address occurs twice, and no id is beyond the last one given. -/
structure Paired (layout : Layout) (r : Registry) : Prop where
  ids_eq : r.ids = r.objects.map fun p => (layout p.2, p.1)
  nodup_ids : r.objects.keys.Nodup
  nodup_addresses : r.ids.keys.Nodup
  le_last : ∀ id o, (id, o) ∈ r.objects → id ≤ r.lastId

namespace Paired

theorem resolve?_iff (h : r.Paired layout) : r.resolve? id = some o ↔ (id, o) ∈ r.objects :=
  Dictionary.get?_eq_some_iff h.nodup_ids

/-- Every address belongs to an object that is registered. -/
theorem get?_ids_iff (h : r.Paired layout) {a : Nat} :
    r.ids.get? a = some id ↔ ∃ o, r.resolve? id = some o ∧ layout o = a := by
  rw [Dictionary.get?_eq_some_iff h.nodup_addresses, h.ids_eq, List.mem_map]
  constructor
  · rintro ⟨⟨id', o⟩, hmem, heq⟩
    cases heq
    exact ⟨o, h.resolve?_iff.mpr hmem, rfl⟩
  · rintro ⟨o, hr, rfl⟩
    exact ⟨(id, o), h.resolve?_iff.mp hr, rfl⟩

theorem idOf?_of_resolve? (h : r.Paired layout) (hr : r.resolve? id = some o) :
    r.idOf? layout o = some id :=
  h.get?_ids_iff.mpr ⟨o, hr, rfl⟩

/-- For an object that is alive the two directions are inverse to each other. -/
theorem resolve?_iff_idOf? (h : r.Paired layout) (ho : r.Apart layout o) :
    r.resolve? id = some o ↔ r.idOf? layout o = some id := by
  refine ⟨h.idOf?_of_resolve?, fun hid => ?_⟩
  obtain ⟨o', hr, haddress⟩ := h.get?_ids_iff.mp hid
  rw [← ho id o' hr haddress]
  exact hr

theorem size_eq (h : r.Paired layout) : r.objects.length = r.ids.length := by
  rw [h.ids_eq, List.length_map]

/-- The registry's own check of its two directions succeeds. -/
theorem isConsistent (h : r.Paired layout) : r.isConsistent layout = true := by
  unfold Registry.isConsistent
  simp only [Bool.and_eq_true, beq_iff_eq, List.all_eq_true]
  refine ⟨h.size_eq, ?_⟩
  rintro ⟨id, o⟩ hmem
  exact h.idOf?_of_resolve? (h.resolve?_iff.mpr hmem)

theorem resolve?_le (h : r.Paired layout) (hr : r.resolve? id = some o) : id ≤ r.lastId :=
  h.le_last id o (h.resolve?_iff.mp hr)

/-- An object that has an id keeps it when it is exposed again. -/
theorem expose_of_resolve? (h : r.Paired layout) (hr : r.resolve? id = some o) :
    r.expose layout o = (id, r) :=
  expose_of_some (h.idOf?_of_resolve? hr)

theorem empty (layout : Layout) : ({} : Registry).Paired layout where
  ids_eq := rfl
  nodup_ids := .nil
  nodup_addresses := .nil
  le_last _ _ hmem := absurd hmem List.not_mem_nil

theorem expose (h : r.Paired layout) (o : ObjectRef) : (r.expose layout o).2.Paired layout := by
  cases hid : r.idOf? layout o with
  | some id =>
    rw [expose_of_some hid]
    exact h
  | none =>
    have hfresh : r.resolve? (r.lastId + 1) = none := by
      cases hr : r.resolve? (r.lastId + 1) with
      | none => rfl
      | some o' => exact absurd (h.resolve?_le hr) (Nat.not_succ_le_self _)
    have hobjects : r.objects.insert (r.lastId + 1) o = r.objects ++ [(r.lastId + 1, o)] :=
      Dictionary.insert_of_get?_none o hfresh
    have hids : r.ids.insert (layout o) (r.lastId + 1) = r.ids ++ [(layout o, r.lastId + 1)] :=
      Dictionary.insert_of_get?_none _ hid
    rw [expose_of_none hid]
    refine ⟨?_, ?_, ?_, ?_⟩
    · rw [hids, hobjects, h.ids_eq, List.map_append]
      rfl
    · exact Dictionary.nodup_keys_insert h.nodup_ids _ _
    · exact Dictionary.nodup_keys_insert h.nodup_addresses _ _
    · intro id o' hmem
      rw [hobjects, List.mem_append, List.mem_singleton] at hmem
      rcases hmem with hmem | hmem
      · exact Nat.le_succ_of_le (h.le_last id o' hmem)
      · cases hmem
        exact Nat.le_refl _

theorem revoke (h : r.Paired layout) (id : Nat) : (r.revoke layout id).2.Paired layout := by
  cases hr : r.resolve? id with
  | none =>
    rw [revoke_of_none hr]
    exact h
  | some o =>
    rw [revoke_of_some hr]
    -- The pair that goes is the only one with this id, and the only one at this address.
    have hsame (p : Nat × ObjectRef) (hp : p ∈ r.objects) : p.1 = id ↔ layout p.2 = layout o := by
      have hresolve : r.resolve? p.1 = some p.2 := h.resolve?_iff.mpr hp
      constructor
      · rintro rfl
        exact congrArg layout (Option.some.inj (hresolve.symm.trans hr))
      · intro haddress
        have hp1 := h.idOf?_of_resolve? hresolve
        unfold Registry.idOf? at hp1
        rw [haddress] at hp1
        exact Option.some.inj (hp1.symm.trans (h.idOf?_of_resolve? hr))
    refine ⟨?_, ?_, ?_, ?_⟩
    · show r.ids.filter _ = (r.objects.filter _).map _
      rw [h.ids_eq, List.filter_map]
      congr 1
      refine List.filter_congr fun p hp => ?_
      simp [hsame p hp]
    · exact Dictionary.nodup_keys_erase h.nodup_ids _
    · exact Dictionary.nodup_keys_erase h.nodup_addresses _
    · intro id' o' hmem
      exact h.le_last id' o' (List.mem_filter.mp hmem).1

theorem clear (layout : Layout) (r : Registry) : r.clear.Paired layout where
  ids_eq := rfl
  nodup_ids := .nil
  nodup_addresses := .nil
  le_last _ _ hmem := absurd hmem List.not_mem_nil

end Paired

/-! ## Changes -/

/-- What changes a registry. -/
inductive Change where
  | expose (o : ObjectRef)
  | revoke (id : Nat)
  | clear

namespace Change

/-- The registry after a change. -/
def run (layout : Layout) (r : Registry) : Change → Registry
  | expose o => (r.expose layout o).2
  | revoke id => (r.revoke layout id).2
  | clear => r.clear

/-- A change that takes an id back if it is given. -/
def Ends (id : Nat) : Change → Prop
  | expose _ => False
  | revoke id' => id' = id
  | clear => True

instance (id : Nat) (c : Change) : Decidable (c.Ends id) := by
  cases c <;> unfold Ends <;> infer_instance

/-- An object that is exposed is alive. -/
def Allowed (layout : Layout) (r : Registry) : Change → Prop
  | expose o => r.Apart layout o
  | revoke _ => True
  | clear => True

/-- The id that a change gives to an object that had none. -/
def gives? (layout : Layout) (r : Registry) : Change → Option Nat
  | expose o => if r.idOf? layout o = none then some (r.expose layout o).1 else none
  | revoke _ => none
  | clear => none

theorem run_paired (h : r.Paired layout) (c : Change) : (c.run layout r).Paired layout := by
  cases c with
  | expose o => exact h.expose o
  | revoke id => exact h.revoke id
  | clear => exact .clear layout r

theorem lastId_le (r : Registry) (c : Change) : r.lastId ≤ (c.run layout r).lastId := by
  cases c with
  | expose o =>
    show r.lastId ≤ (r.expose layout o).2.lastId
    cases hid : r.idOf? layout o with
    | some id => simp only [expose_of_some hid, Nat.le_refl]
    | none => simp only [expose_of_none hid, Nat.le_succ]
  | revoke id =>
    show r.lastId ≤ (r.revoke layout id).2.lastId
    cases hr : r.resolve? id with
    | some o => simp only [revoke_of_some hr, Nat.le_refl]
    | none => simp only [revoke_of_none hr, Nat.le_refl]
  | clear => exact Nat.le_refl _

/-- An id that is given is the last one then. -/
theorem gives?_eq {c : Change} (h : c.gives? layout r = some id) :
    (c.run layout r).lastId = id := by
  cases c with
  | expose o =>
    show (r.expose layout o).2.lastId = id
    replace h : (if r.idOf? layout o = none then some (r.expose layout o).1 else none) = some id :=
      h
    cases hid : r.idOf? layout o with
    | some id' =>
      rw [hid] at h
      exact absurd h nofun
    | none =>
      rw [if_pos hid, expose_of_none hid] at h
      rw [expose_of_none hid]
      exact Option.some.inj h
  | revoke id => exact absurd h nofun
  | clear => exact absurd h nofun

/-- What an old id finds changes only by a change that ends it. -/
theorem resolve?_run (c : Change) (hid : id ≤ r.lastId) :
    (c.run layout r).resolve? id = if c.Ends id then none else r.resolve? id := by
  cases c with
  | expose o =>
    rw [if_neg (fun h : (Change.expose o).Ends id => h)]
    show (r.expose layout o).2.resolve? id = r.resolve? id
    cases hid' : r.idOf? layout o with
    | some id' => rw [expose_of_some hid']
    | none =>
      rw [expose_of_none hid']
      show (r.objects.insert (r.lastId + 1) o).get? id = r.objects.get? id
      rw [Dictionary.get?_insert, if_neg (by omega)]
  | revoke id' =>
    show (r.revoke layout id').2.resolve? id = if id' = id then none else r.resolve? id
    cases hr : r.resolve? id' with
    | some o =>
      rw [revoke_of_some hr]
      exact Dictionary.get?_erase _ _ _
    | none =>
      rw [revoke_of_none hr]
      by_cases heq : id' = id
      · rw [if_pos heq, ← heq]
        exact hr
      · rw [if_neg heq]
  | clear => exact (if_pos trivial).symm

/-- What an id finds after a change it found before, or the change gave the id. -/
theorem gives?_of_resolve? (c : Change) (h : (c.run layout r).resolve? id = some o) :
    r.resolve? id = some o ∨ c.gives? layout r = some id := by
  cases c with
  | expose o' =>
    replace h : (r.expose layout o').2.resolve? id = some o := h
    cases hid : r.idOf? layout o' with
    | some id' =>
      rw [expose_of_some hid] at h
      exact .inl h
    | none =>
      have hgives : (Change.expose o').gives? layout r = some (r.lastId + 1) := by
        show (if r.idOf? layout o' = none then _ else none) = _
        rw [if_pos hid, expose_of_none hid]
      rw [expose_of_none hid] at h
      replace h : (r.objects.insert (r.lastId + 1) o').get? id = some o := h
      rw [Dictionary.get?_insert] at h
      by_cases heq : r.lastId + 1 = id
      · rw [← heq]
        exact .inr hgives
      · rw [if_neg heq] at h
        exact .inl h
  | revoke id' =>
    replace h : (r.revoke layout id').2.resolve? id = some o := h
    cases hr : r.resolve? id' with
    | some o' =>
      rw [revoke_of_some hr] at h
      replace h : (r.objects.erase id').get? id = some o := h
      rw [Dictionary.get?_erase] at h
      by_cases heq : id' = id
      · rw [if_pos heq] at h
        exact absurd h nofun
      · rw [if_neg heq] at h
        exact .inl h
    | none =>
      rw [revoke_of_none hr] at h
      exact .inl h
  | clear => exact absurd h nofun

end Change

/-! ## Histories -/

/-- The registry after changes in order. -/
def after (layout : Layout) (r : Registry) (changes : List Change) : Registry :=
  changes.foldl (Change.run layout) r

/-- The ids that changes give to objects that had none, in order. -/
def given (layout : Layout) (r : Registry) : List Change → List Nat
  | [] => []
  | c :: rest => (c.gives? layout r).toList ++ given layout (c.run layout r) rest

theorem after_append (r : Registry) (cs cs' : List Change) :
    r.after layout (cs ++ cs') = (r.after layout cs).after layout cs' :=
  List.foldl_append

theorem after_paired (h : r.Paired layout) (changes : List Change) :
    (r.after layout changes).Paired layout := by
  induction changes generalizing r with
  | nil => exact h
  | cons c rest ih => exact ih (c.run_paired h)

theorem lastId_le_after (r : Registry) (changes : List Change) :
    r.lastId ≤ (r.after layout changes).lastId := by
  induction changes generalizing r with
  | nil => exact Nat.le_refl _
  | cons c rest ih => exact Nat.le_trans (c.lastId_le r) (ih (c.run layout r))

/-- No id given so far is beyond the last one, also when the registry was cleared since. -/
theorem le_of_mem_given (r : Registry) (changes : List Change) (h : id ∈ r.given layout changes) :
    id ≤ (r.after layout changes).lastId := by
  induction changes generalizing r with
  | nil => exact absurd h List.not_mem_nil
  | cons c rest ih =>
    rcases List.mem_append.mp h with hfirst | hrest
    · have hlast := Change.gives?_eq (Option.mem_toList.mp hfirst)
      have hle : (c.run layout r).lastId ≤ ((c.run layout r).after layout rest).lastId :=
        lastId_le_after _ rest
      rw [hlast] at hle
      exact hle
    · exact ih (c.run layout r) hrest

/-- What an old id finds after changes. -/
theorem resolve?_after (changes : List Change) (hid : id ≤ r.lastId) :
    (r.after layout changes).resolve? id =
      if ∃ c ∈ changes, c.Ends id then none else r.resolve? id := by
  induction changes generalizing r with
  | nil => simp [after]
  | cons c rest ih =>
    have hlater : id ≤ (c.run layout r).lastId := Nat.le_trans hid (c.lastId_le r)
    show ((c.run layout r).after layout rest).resolve? id = _
    rw [ih hlater, c.resolve?_run hid]
    by_cases hrest : ∃ c ∈ rest, c.Ends id
    · have hsome : ∃ c' ∈ c :: rest, c'.Ends id := by
        obtain ⟨c', hmem, hends⟩ := hrest
        exact ⟨c', List.mem_cons_of_mem c hmem, hends⟩
      rw [if_pos hrest, if_pos hsome]
    · rw [if_neg hrest]
      have hiff : (∃ c' ∈ c :: rest, c'.Ends id) ↔ c.Ends id := by
        constructor
        · rintro ⟨c', hmem, hends⟩
          rcases List.mem_cons.mp hmem with rfl | hmem
          · exact hends
          · exact absurd ⟨c', hmem, hends⟩ hrest
        · intro hends
          exact ⟨c, List.mem_cons_self, hends⟩
      simp only [hiff]

/-- What an id finds was there before, or the id was given since. -/
theorem mem_given_of_resolve? (changes : List Change)
    (h : (r.after layout changes).resolve? id = some o) :
    r.resolve? id = some o ∨ id ∈ r.given layout changes := by
  induction changes generalizing r with
  | nil => exact .inl h
  | cons c rest ih =>
    rcases ih h with hrun | hrest
    · rcases c.gives?_of_resolve? hrun with hbefore | hgiven
      · exact .inl hbefore
      · exact .inr (List.mem_append_left _ (Option.mem_toList.mpr hgiven))
    · exact .inr (List.mem_append_right _ hrest)

/-- An object that is alive is found at once under the id it is exposed with. -/
theorem resolve?_expose (h : r.Paired layout) (ho : r.Apart layout o) :
    (r.expose layout o).2.resolve? (r.expose layout o).1 = some o := by
  cases hid : r.idOf? layout o with
  | some id =>
    rw [expose_of_some hid]
    exact (h.resolve?_iff_idOf? ho).mpr hid
  | none =>
    rw [expose_of_none hid]
    show (r.objects.insert (r.lastId + 1) o).get? (r.lastId + 1) = some o
    rw [Dictionary.get?_insert, if_pos rfl]

/-! ## Clones -/

/-- Registries in memory, and for each clone where the registry is that it leads to. -/
structure Clones where
  registries : List Registry
  places : List Nat

/-- What is done through the clones of a registry. -/
inductive Event where
  /-- A further clone is made of a clone. -/
  | clone (c : Nat)
  | drop (c : Nat)
  | change (c : Nat) (change : Change)

/-- The change of an event. -/
def Event.change? : Event → Option Change
  | clone _ => none
  | drop _ => none
  | change _ ch => some ch

/-- The changes made through any clone, in order. -/
def changes (events : List Event) : List Change := events.filterMap Event.change?

theorem changes_clone (events : List Event) (c : Nat) :
    changes (events ++ [.clone c]) = changes events := by
  simp [changes, List.filterMap_append, List.filterMap_cons, Event.change?]

theorem changes_drop (events : List Event) (c : Nat) :
    changes (events ++ [.drop c]) = changes events := by
  simp [changes, List.filterMap_append, List.filterMap_cons, Event.change?]

theorem changes_change (events : List Event) (c : Nat) (d : Change) :
    changes (events ++ [.change c d]) = changes events ++ [d] := by
  simp [changes, List.filterMap_append, Event.change?]

namespace Clones

/-- A new registry. -/
def new : Clones := { registries := [{}], places := [0] }

/-- The registry a clone leads to. -/
def registry? (s : Clones) (c : Nat) : Option Registry :=
  s.places[c]?.bind fun p => s.registries[p]?

/-- What can be done through the clones of a new registry, and where it leads. -/
inductive Run (layout : Layout) : List Event → Clones → Prop where
  | new : Run layout [] new
  | clone {events : List Event} {s : Clones} {c p : Nat} (h : Run layout events s)
      (hp : s.places[c]? = some p) :
      Run layout (events ++ [.clone c]) { s with places := s.places ++ [p] }
  | drop {events : List Event} {s : Clones} {c : Nat} (h : Run layout events s) :
      Run layout (events ++ [.drop c]) { s with places := s.places.eraseIdx c }
  | change {events : List Event} {s : Clones} {c p : Nat} {r : Registry} {d : Change}
      (h : Run layout events s) (hp : s.places[c]? = some p) (hr : s.registries[p]? = some r)
      (hallowed : d.Allowed layout r) :
      Run layout (events ++ [.change c d])
        { s with registries := s.registries.set p (d.run layout r) }

variable {events : List Event} {s : Clones} {c : Nat}

namespace Run

/-- All clones lead to the one registry, which has seen the changes made through any of them. -/
theorem shared (h : Run layout events s) :
    s.registries = [after layout {} (changes events)] ∧ ∀ p ∈ s.places, p = 0 := by
  induction h with
  | new => exact ⟨rfl, fun p hp => List.mem_singleton.mp hp⟩
  | clone _ hp ih =>
    rw [changes_clone]
    refine ⟨ih.1, fun p hmem => ?_⟩
    rcases List.mem_append.mp hmem with hmem | hmem
    · exact ih.2 p hmem
    · rw [List.mem_singleton.mp hmem]
      exact ih.2 _ (List.mem_of_getElem? hp)
  | drop _ ih =>
    rw [changes_drop]
    exact ⟨ih.1, fun p hmem => ih.2 p (List.mem_of_mem_eraseIdx hmem)⟩
  | @change events s c p r d _ hp hr _ ih =>
    refine ⟨?_, ih.2⟩
    have hplace : p = 0 := ih.2 p (List.mem_of_getElem? hp)
    have hr' : after layout {} (changes events) = r := by
      rw [hplace, ih.1] at hr
      exact Option.some.inj hr
    have hstep : d.run layout r = after layout {} (changes events ++ [d]) := by
      rw [after_append, hr']
      rfl
    rw [ih.1, hplace, changes_change, ← hstep]
    rfl

/-- Every object was alive when it was exposed. -/
theorem apart (h : Run layout events s) {before later : List Change}
    (hsplit : changes events = before ++ .expose o :: later) :
    (after layout {} before).Apart layout o := by
  induction h generalizing before later with
  | new => exact absurd hsplit.symm (by simp [changes])
  | clone _ _ ih =>
    rw [changes_clone] at hsplit
    exact ih hsplit
  | drop _ ih =>
    rw [changes_drop] at hsplit
    exact ih hsplit
  | @change events s c p r d hrun hp hr hallowed ih =>
    rw [changes_change] at hsplit
    rcases List.eq_nil_or_concat later with rfl | ⟨later, last, rfl⟩
    · obtain ⟨hbefore, hd⟩ := List.append_inj' hsplit rfl
      cases hd
      rw [hrun.shared.1, hrun.shared.2 p (List.mem_of_getElem? hp)] at hr
      rw [← hbefore, Option.some.inj hr]
      exact hallowed
    · rw [List.concat_eq_append, ← List.cons_append, ← List.append_assoc] at hsplit
      exact ih (List.append_inj' hsplit rfl).1

/-- A clone says what the one registry says after all changes. -/
theorem registry_eq (h : Run layout events s) (hr : s.registry? c = some r) :
    r = after layout {} (changes events) := by
  unfold registry? at hr
  obtain ⟨p, hp, hr⟩ := Option.bind_eq_some_iff.mp hr
  rw [h.shared.1, h.shared.2 p (List.mem_of_getElem? hp)] at hr
  exact (Option.some.inj hr).symm

end Run

end Clones

/-! ## What a registry says -/

/-- What a registry that started empty says after changes. -/
structure Faithful (layout : Layout) (changes : List Change) (r : Registry) : Prop where
  isConsistent : r.isConsistent layout = true
  size_eq : r.objects.length = r.ids.length
  /-- Every id has its object's address, and every address is that of an object with its id. -/
  inverse : ∀ a id, r.ids.get? a = some id ↔ ∃ o, r.resolve? id = some o ∧ layout o = a
  resolve?_iff_idOf? : ∀ id o, r.Apart layout o →
    (r.resolve? id = some o ↔ r.idOf? layout o = some id)
  /-- An object that has an id keeps it. -/
  expose_known : ∀ id o, r.resolve? id = some o → r.expose layout o = (id, r)
  /-- A new id is beyond all given so far, and finds its object. -/
  expose_new : ∀ o, r.Apart layout o → (∀ id, r.resolve? id ≠ some o) →
    (∀ id ∈ given layout {} changes, id < (r.expose layout o).1) ∧
      (r.expose layout o).2.resolve? (r.expose layout o).1 = some o
  /-- The id an object was exposed under finds it until the id is taken back, and then nothing. -/
  resolve?_exposed : ∀ before o later, changes = before ++ .expose o :: later →
    r.resolve? ((after layout {} before).expose layout o).1 =
      if ∃ c ∈ later, c.Ends ((after layout {} before).expose layout o).1 then none else some o
  /-- Only ids that were given find something. -/
  mem_given : ∀ id o, r.resolve? id = some o → id ∈ given layout {} changes
  /-- An id that was taken back once is not there to be taken back again. -/
  revoke_again : ∀ before id later, changes = before ++ .revoke id :: later →
    id ∈ given layout {} before → r.revoke layout id = (none, r)

/-- An id of a paired registry is found again after later changes until one of them ends it. -/
theorem resolve?_after_expose (h : r.Paired layout) (ho : r.Apart layout o)
    (later : List Change) :
    ((r.expose layout o).2.after layout later).resolve? (r.expose layout o).1 =
      if ∃ c ∈ later, c.Ends (r.expose layout o).1 then none else some o := by
  have hfound := resolve?_expose h ho
  have hle : (r.expose layout o).1 ≤ (r.expose layout o).2.lastId := (h.expose o).resolve?_le hfound
  rw [resolve?_after later hle, hfound]

/-- An id that was given and is revoked finds nothing any more. -/
theorem resolve?_after_revoke (hid : id ≤ r.lastId) (later : List Change) :
    ((r.revoke layout id).2.after layout later).resolve? id = none := by
  have hended : ((Change.revoke id).run layout r).resolve? id = none := by
    rw [Change.resolve?_run _ hid]
    exact if_pos rfl
  have hle : id ≤ ((Change.revoke id).run layout r).lastId :=
    Nat.le_trans hid (Change.lastId_le r (.revoke id))
  show (((Change.revoke id).run layout r).after layout later).resolve? id = none
  rw [resolve?_after later hle, hended]
  exact ite_self none

/-- Whatever is exposed, revoked and cleared through the clones of a registry, each of them tells
the same: ids and objects are paired off, an object keeps its id, a new id is greater than all
before, and an id finds its object until it is taken back and nothing ever after. -/
theorem clones_faithful {events : List Event} {s : Clones} {c : Nat}
    (h : Clones.Run layout events s) (hr : s.registry? c = some r) :
    r.Faithful layout (changes events) := by
  have hpaired (changes : List Change) : (after layout {} changes).Paired layout :=
    after_paired (.empty layout) changes
  obtain rfl := h.registry_eq hr
  refine
    { isConsistent := (hpaired _).isConsistent
      size_eq := (hpaired _).size_eq
      inverse := fun a id => (hpaired _).get?_ids_iff
      resolve?_iff_idOf? := fun id o ho => (hpaired _).resolve?_iff_idOf? ho
      expose_known := fun id o hfound => (hpaired _).expose_of_resolve? hfound
      expose_new := ?_
      resolve?_exposed := ?_
      mem_given := ?_
      revoke_again := ?_ }
  · intro o ho hnew
    refine ⟨fun id hid => ?_, resolve?_expose (hpaired _) ho⟩
    have hnone : idOf? layout (after layout {} (changes events)) o = none := by
      cases hid : idOf? layout (after layout {} (changes events)) o with
      | none => rfl
      | some id => exact absurd (((hpaired _).resolve?_iff_idOf? ho).mpr hid) (hnew id)
    rw [expose_of_none hnone]
    exact Nat.lt_succ_of_le (le_of_mem_given _ _ hid)
  · intro before o later hsplit
    rw [hsplit, after_append]
    exact resolve?_after_expose (hpaired before) (h.apart hsplit) later
  · intro id o hfound
    rcases mem_given_of_resolve? _ hfound with hempty | hgiven
    · exact absurd hempty nofun
    · exact hgiven
  · intro before id later hsplit hgiven
    apply revoke_of_none
    rw [hsplit, after_append]
    exact resolve?_after_revoke (le_of_mem_given _ before hgiven) later

/-- An object is exposed and revoked through one clone, and another object at the address it had
is exposed through the other: the old id finds nothing, the new one is greater. -/
theorem clones_faithful_reused_address :
    let layout : Layout := fun _ => 7
    let changes : List Change := [.expose ⟨0⟩, .revoke 1, .expose ⟨1⟩]
    let r : Registry := { lastId := 2, objects := [(2, ⟨1⟩)], ids := [(7, 2)] }
    r.Faithful layout changes ∧ r.resolve? 1 = none ∧ r.revoke layout 1 = (none, r) := by
  intro layout changes r
  have hclone : Clones.Run layout [.clone 0] { registries := [{}], places := [0, 0] } :=
    .clone (p := 0) .new rfl
  have hexpose := hclone.change (c := 0) (p := 0) (d := .expose ⟨0⟩) rfl rfl nofun
  have hrevoke := hexpose.change (c := 1) (p := 0) (d := .revoke 1) rfl rfl trivial
  have hagain := hrevoke.change (c := 1) (p := 0) (d := .expose ⟨1⟩) rfl rfl nofun
  have hfaithful : r.Faithful layout changes := clones_faithful (c := 0) hagain rfl
  have hgiven : 1 ∈ given layout {} [.expose ⟨0⟩] := List.mem_singleton.mpr rfl
  exact ⟨hfaithful, rfl, hfaithful.revoke_again [.expose ⟨0⟩] 1 [.expose ⟨1⟩] rfl hgiven⟩

end Registry

end ScriptBridge
