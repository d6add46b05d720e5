import ScriptBridge.Bridge.Identity
import ScriptBridge.Proofs.Host.Registry
import ScriptBridge.Proofs.Number.Integral

/-!
# The roster of proxies

What a session knows of its proxies is spread over four places: the registry of ids, the list of
ids that were given to a proxy, the table that holds proxies weakly, and the queue of proxies that
wait for their finalizer. They change at different times. `Roster` puts them beside the heap's
userdata, and `Roster.Kept` says how they hang together:

* an id is given to one proxy only, ever, and finds nothing but the object of that proxy;
* the table of proxies has at the place of an id nothing but the proxy of that id;
* a userdata with an id is such a proxy, or it came back for the finalizer of one;
* no two userdata have one id, and the id of a proxy that waits for its finalizer has none;
* the id of a userdata that came back was taken back, unless its finalizer is still to run.

`Roster.Complete` adds that no proxy was lost: the proxy of an id that was not taken back is there
or waits for its finalizer. Each change of the four places keeps both.
-/

namespace ScriptBridge

/-! ## Proxies -/

/-- A proxy that was handed out: its userdata, the id it carries, and the object that was
pushed. -/
structure Proxy where
  userdata : UserdataRef
  id : Nat
  object : ObjectRef
deriving DecidableEq

/-- The names of the metatables of proxies in the registry table. -/
def proxyTableNames : List String := [objectTableName, typeTableName, delegateTableName]

theorem HostObject.proxyTableName_mem (o : HostObject) : o.proxyTableName ∈ proxyTableNames := by
  unfold proxyTableName proxyTableNames
  split
  · simp
  · simp
  · split <;> simp

/-- What a session set up for its proxies: its machine, the metatables by their names, and their
finalizers. -/
structure Fixture where
  home : Nat
  metatable : String → TableRef
  finalizer : String → FunctionRef

/-- The table is a metatable of proxies. -/
def Fixture.Serves (F : Fixture) (t : TableRef) : Prop :=
  ∃ name ∈ proxyTableNames, F.metatable name = t

/-! ## Rosters -/

structure Roster where
  registry : Registry
  /-- Ids that were given to a proxy and not taken back since. -/
  materialized : List Nat
  /-- Where the table of proxies points for an id, dead or alive. -/
  place : Nat → Option UserdataRef
  /-- The userdata of the heap that carry an id. -/
  cell : Nat → Option Userdata
  /-- The index the next userdata will get. -/
  next : Nat
  /-- Userdata that wait for their finalizers. -/
  pending : List Pending
  /-- The id of a userdata that came back and whose finalizer did not run yet. -/
  late : Option Nat

namespace Roster

variable {R : Roster} {F : Fixture} {made : List Proxy}

/-- The userdata at an index is a proxy of `made`, or came back for the finalizer of one. -/
def Shows (R : Roster) (made : List Proxy) (i : Nat) (c : Userdata) : Prop :=
  ∃ p ∈ made, c.payload = .proxy p.id ∧
    (p.userdata.index = i ∧ c.finalized = false ∧ R.place p.id = some p.userdata ∨
      (∀ q ∈ made, q.userdata.index ≠ i) ∧ c.finalized = true)

/-- No userdata carries an id. -/
def Lacks (R : Roster) (id : Nat) : Prop := ∀ i c, R.cell i = some c → c.payload ≠ .proxy id

/-- How a roster hangs together when `made` are the proxies that were handed out. -/
structure Kept (R : Roster) (F : Fixture) (made : List Proxy) : Prop where
  paired : R.registry.Paired ObjectRef.index
  byId : ∀ p ∈ made, ∀ q ∈ made, p.id = q.id → p = q
  byUserdata : ∀ p ∈ made, ∀ q ∈ made, p.userdata = q.userdata → p = q
  given : ∀ p ∈ made, p.id ≤ R.registry.lastId
  exact : ∀ p ∈ made, p.id ≤ 2 ^ 53
  begun : ∀ p ∈ made, p.userdata.index < R.next
  resolved : ∀ p ∈ made, ∀ o, R.registry.resolve? p.id = some o →
    o = p.object ∧ p.id ∈ R.materialized
  materialized : ∀ id ∈ R.materialized, ∃ p ∈ made, p.id = id
  placed : ∀ id u, R.place id = some u → ∃ p ∈ made, p.id = id ∧ p.userdata = u
  bounded : ∀ i c, R.cell i = some c → i < R.next
  home : ∀ i c, R.cell i = some c → c.home = F.home
  served : ∀ i c, R.cell i = some c → ∃ t, c.metatable = some t ∧ F.Serves t
  shown : ∀ i c, R.cell i = some c → R.Shows made i c
  single : ∀ i j c d, R.cell i = some c → R.cell j = some d → c.payload = d.payload → i = j
  pending : ∀ q ∈ R.pending, F.Serves q.metatable ∧
    ∃ p ∈ made, q.payload = .proxy p.id ∧ R.Lacks p.id
  waiting : (R.pending.map Pending.payload).Nodup
  rested : ∀ i c id, R.cell i = some c → c.finalized = true → c.payload = .proxy id →
    id ∈ R.materialized → R.late = some id

/-- No proxy was lost before its id was taken back. -/
def Complete (R : Roster) (made : List Proxy) : Prop :=
  ∀ p ∈ made, p.id ∈ R.materialized →
    (∃ c, R.cell p.userdata.index = some c) ∨ ∃ q ∈ R.pending, q.payload = .proxy p.id

/-- A session without ids and userdata made no proxy. -/
theorem Kept.new (hregistry : R.registry = {}) (hmaterialized : R.materialized = [])
    (hplace : R.place = fun _ => none) (hcell : R.cell = fun _ => none)
    (hpending : R.pending = []) :
    R.Kept F [] where
  paired := by
    rw [hregistry]
    exact .empty _
  byId p hp := absurd hp List.not_mem_nil
  byUserdata p hp := absurd hp List.not_mem_nil
  given p hp := absurd hp List.not_mem_nil
  exact p hp := absurd hp List.not_mem_nil
  begun p hp := absurd hp List.not_mem_nil
  resolved p hp := absurd hp List.not_mem_nil
  materialized id hid := by
    rw [hmaterialized] at hid
    cases hid
  placed id u hu := by
    rw [hplace] at hu
    cases hu
  bounded i c hc := by
    rw [hcell] at hc
    cases hc
  home i c hc := by
    rw [hcell] at hc
    cases hc
  served i c hc := by
    rw [hcell] at hc
    cases hc
  shown i c hc := by
    rw [hcell] at hc
    cases hc
  single i j c d hc := by
    rw [hcell] at hc
    cases hc
  pending q hq := by
    rw [hpending] at hq
    cases hq
  waiting := by
    rw [hpending]
    exact List.nodup_nil
  rested i c id hc := by
    rw [hcell] at hc
    cases hc

namespace Kept

variable (h : R.Kept F made)

include h

theorem shown_of_mem {p : Proxy} (hp : p ∈ made) {c : Userdata}
    (hc : R.cell p.userdata.index = some c) :
    c.payload = .proxy p.id ∧ c.finalized = false ∧ R.place p.id = some p.userdata := by
  obtain ⟨q, hq, hpayload, ⟨hi, hfinalized, hplace⟩ | ⟨hother, -⟩⟩ := h.shown _ c hc
  · obtain rfl : q = p := h.byUserdata q hq p hp (UserdataRef.ext hi)
    exact ⟨hpayload, hfinalized, hplace⟩
  · exact absurd rfl (hother p hp)

/-- A userdata whose finalizer was not scheduled is a proxy that was handed out. -/
theorem mem_of_live {u : UserdataRef} {c : Userdata} {id : Nat} (hc : R.cell u.index = some c)
    (hpayload : c.payload = .proxy id) (hlive : c.finalized = false) :
    ∃ p ∈ made, p.userdata = u ∧ p.id = id ∧ R.place id = some u := by
  obtain ⟨p, hp, hshown, ⟨hi, -, hplace⟩ | ⟨-, hfinalized⟩⟩ := h.shown _ c hc
  · obtain rfl : p.userdata = u := UserdataRef.ext hi
    obtain rfl : p.id = id := Payload.proxy.inj (hshown.symm.trans hpayload)
    exact ⟨p, hp, rfl, rfl, hplace⟩
  · rw [hlive] at hfinalized
    cases hfinalized

/-- An id that is not on the list of given ids was never given, as long as it finds an object. -/
theorem fresh {id : Nat} {o : ObjectRef} (ho : R.registry.resolve? id = some o)
    (hid : id ∉ R.materialized) : ∀ p ∈ made, p.id ≠ id := by
  rintro p hp rfl
  exact hid (h.resolved p hp o ho).2

/-- No userdata carries an id that was given to no proxy. -/
theorem lacks {id : Nat} (hid : ∀ p ∈ made, p.id ≠ id) : R.Lacks id := by
  intro i c hc he
  obtain ⟨p, hp, hpayload, -⟩ := h.shown i c hc
  exact hid p hp (Payload.proxy.inj (hpayload.symm.trans he))

/-- The userdata that carries an id is the only one. -/
theorem lacks_of_cell {i : Nat} {c : Userdata} {q : Pending} (hq : q ∈ R.pending)
    (hc : R.cell i = some c) : q.payload ≠ c.payload := by
  intro he
  obtain ⟨-, p, -, hpayload, hlacks⟩ := h.pending q hq
  exact hlacks i c hc (he.symm.trans hpayload)

/-! ## Changes of the registry -/

omit h in
/-- An id that was given before keeps finding what it found, unless a change takes it back. -/
theorem resolve?_of_change (h : R.Kept F made) (c : Registry.Change) {p : Proxy} (hp : p ∈ made)
    {o : ObjectRef} (ho : (c.run ObjectRef.index R.registry).resolve? p.id = some o) :
    R.registry.resolve? p.id = some o ∧ ¬ c.Ends p.id := by
  rw [Registry.Change.resolve?_run c (h.given p hp)] at ho
  split at ho
  · cases ho
  · rename_i hends
    exact ⟨ho, hends⟩

theorem changed (c : Registry.Change) :
    Kept { R with registry := c.run ObjectRef.index R.registry } F made where
  paired := Registry.Change.run_paired h.paired c
  byId := h.byId
  byUserdata := h.byUserdata
  given p hp := Nat.le_trans (h.given p hp) (c.lastId_le R.registry)
  exact := h.exact
  begun := h.begun
  resolved p hp o ho := h.resolved p hp o (h.resolve?_of_change c hp ho).1
  materialized := h.materialized
  placed := h.placed
  bounded := h.bounded
  home := h.home
  served := h.served
  shown := h.shown
  single := h.single
  pending := h.pending
  waiting := h.waiting
  rested := h.rested

/-- Userdata without ids may come to the heap. -/
theorem grow {n : Nat} (hn : R.next ≤ n) : Kept { R with next := n } F made :=
  { h with
    begun := fun p hp => Nat.lt_of_lt_of_le (h.begun p hp) hn
    bounded := fun i c hc => Nat.lt_of_lt_of_le (h.bounded i c hc) hn }

end Kept

/-! ## Taking an id back -/

/-- An id is taken back and no longer counts as given. -/
def retake (R : Roster) (id : Nat) : Roster :=
  { R with
    materialized := R.materialized.filter (· != id)
    registry := (R.registry.revoke ObjectRef.index id).2 }

/-- What the finalizer does for the id of its argument, if that has one. -/
def retake? (R : Roster) : Option Nat → Roster
  | some id => R.retake id
  | none => R

/-- The place of an id is cleared unless a proxy lives there. -/
def clear (R : Roster) (id : Nat) : Roster :=
  { R with
    place := fun i =>
      if i = id ∧ (R.place id).bind (fun u => R.cell u.index) = none then none else R.place i }

theorem mem_filter_ne {ids : List Nat} {id i : Nat} :
    i ∈ ids.filter (· != id) ↔ i ∈ ids ∧ i ≠ id := by
  rw [List.mem_filter, bne_iff_ne]

theorem Kept.retake (h : R.Kept F made) (id : Nat) : (R.retake id).Kept F made :=
  { h.changed (.revoke id) with
    resolved := fun p hp o ho => by
      obtain ⟨hresolve, hends⟩ := h.resolve?_of_change (.revoke id) hp ho
      obtain ⟨hobject, hmem⟩ := h.resolved p hp o hresolve
      exact ⟨hobject, mem_filter_ne.mpr ⟨hmem, fun he => hends he.symm⟩⟩
    materialized := fun i hi => h.materialized i (mem_filter_ne.mp hi).1
    rested := fun i c id hc hfinalized hid hmem =>
      h.rested i c id hc hfinalized hid (mem_filter_ne.mp hmem).1 }

theorem Complete.retake (h : R.Complete made) (id : Nat) : (R.retake id).Complete made :=
  fun p hp hmem => h p hp (mem_filter_ne.mp hmem).1

theorem clear_place {id i : Nat} {u : UserdataRef} (hu : (R.clear id).place i = some u) :
    R.place i = some u := by
  have hu : (if i = id ∧ (R.place id).bind (fun u => R.cell u.index) = none then none
    else R.place i) = some u := hu
  split at hu
  · cases hu
  · exact hu

/-- The place of a proxy that is there is not cleared. -/
theorem clear_place_of_cell {id i : Nat} {u : UserdataRef} {c : Userdata}
    (hu : R.place i = some u) (hc : R.cell u.index = some c) :
    (R.clear id).place i = some u := by
  refine (if_neg ?_).trans hu
  rintro ⟨rfl, hnone⟩
  rw [hu, Option.bind_some, hc] at hnone
  cases hnone

theorem Kept.clear (h : R.Kept F made) (id : Nat) : (R.clear id).Kept F made :=
  { h with
    placed := fun i u hu => h.placed i u (clear_place hu)
    shown := fun i c hc => by
      obtain ⟨p, hp, hpayload, ⟨hi, hfinalized, hplace⟩ | hother⟩ := h.shown i c hc
      · have hc : R.cell p.userdata.index = some c := hi ▸ hc
        exact ⟨p, hp, hpayload, .inl ⟨hi, hfinalized, clear_place_of_cell hplace hc⟩⟩
      · exact ⟨p, hp, hpayload, .inr hother⟩ }

/-! ## A new proxy -/

/-- A new proxy gets an id. -/
def enrol (R : Roster) (F : Fixture) (id : Nat) (t : TableRef) : Roster :=
  { R with
    materialized := id :: R.materialized.filter (· != id)
    place := fun i => if i = id then some ⟨R.next⟩ else R.place i
    cell := fun i => if i = R.next then
      some { payload := .proxy id, metatable := some t, home := F.home } else R.cell i
    next := R.next + 1 }

/-- An index that was in use is another one than that of the new proxy. -/
theorem enrol_cell_of_lt {id i : Nat} {t : TableRef} (hi : i < R.next) :
    (R.enrol F id t).cell i = R.cell i :=
  if_neg (Nat.ne_of_lt hi)

section

variable {id : Nat} {t : TableRef} {o : ObjectRef}

theorem Kept.enrol (h : R.Kept F made) (hfresh : ∀ p ∈ made, p.id ≠ id)
    (hexact : id ≤ 2 ^ 53) (ho : R.registry.resolve? id = some o) (ht : F.Serves t) :
    (R.enrol F id t).Kept F (⟨⟨R.next⟩, id, o⟩ :: made) := by
  have hcell (i : Nat) (c : Userdata) (hc : (R.enrol F id t).cell i = some c) :
      (i = R.next ∧ c = { payload := .proxy id, metatable := some t, home := F.home }) ∨
        i < R.next ∧ R.cell i = some c := by
    by_cases hi : i = R.next
    · have hc : (if i = R.next then
          some { payload := .proxy id, metatable := some t, home := F.home }
        else R.cell i) = some c := hc
      rw [if_pos hi] at hc
      exact .inl ⟨hi, (Option.some.inj hc).symm⟩
    · have hc : (if i = R.next then
          some { payload := .proxy id, metatable := some t, home := F.home }
        else R.cell i) = some c := hc
      rw [if_neg hi] at hc
      exact .inr ⟨h.bounded i c hc, hc⟩
  have hold {p : Proxy} (hp : p ∈ made) : (R.enrol F id t).place p.id = R.place p.id :=
    if_neg (hfresh p hp)
  exact {
    paired := h.paired
    byId := fun p hp q hq he => by
      obtain rfl | hp := List.mem_cons.mp hp <;> obtain rfl | hq := List.mem_cons.mp hq
      · rfl
      · exact absurd he.symm (hfresh q hq)
      · exact absurd he (hfresh p hp)
      · exact h.byId p hp q hq he
    byUserdata := fun p hp q hq he => by
      obtain rfl | hp := List.mem_cons.mp hp <;> obtain rfl | hq := List.mem_cons.mp hq
      · rfl
      · have hlt := h.begun q hq
        rw [← he] at hlt
        exact absurd hlt (Nat.lt_irrefl _)
      · have hlt := h.begun p hp
        rw [he] at hlt
        exact absurd hlt (Nat.lt_irrefl _)
      · exact h.byUserdata p hp q hq he
    given := fun p hp => by
      obtain rfl | hp := List.mem_cons.mp hp
      · exact h.paired.resolve?_le ho
      · exact h.given p hp
    exact := fun p hp => by
      obtain rfl | hp := List.mem_cons.mp hp
      · exact hexact
      · exact h.exact p hp
    begun := fun p hp => by
      obtain rfl | hp := List.mem_cons.mp hp
      · exact Nat.lt_succ_self _
      · exact Nat.lt_succ_of_lt (h.begun p hp)
    resolved := fun p hp o' ho' => by
      obtain rfl | hp := List.mem_cons.mp hp
      · exact ⟨Option.some.inj (ho'.symm.trans ho), List.mem_cons_self⟩
      · obtain ⟨hobject, hmem⟩ := h.resolved p hp o' ho'
        exact ⟨hobject, List.mem_cons_of_mem _ (mem_filter_ne.mpr ⟨hmem, hfresh p hp⟩)⟩
    materialized := fun i hi => by
      obtain rfl | hi := List.mem_cons.mp hi
      · exact ⟨_, List.mem_cons_self, rfl⟩
      · obtain ⟨p, hp, he⟩ := h.materialized i (mem_filter_ne.mp hi).1
        exact ⟨p, List.mem_cons_of_mem _ hp, he⟩
    placed := fun i u hu => by
      have hu : (if i = id then some ⟨R.next⟩ else R.place i) = some u := hu
      split at hu
      · rename_i hi
        exact ⟨_, List.mem_cons_self, hi.symm, Option.some.inj hu⟩
      · obtain ⟨p, hp, hpid, hpu⟩ := h.placed i u hu
        exact ⟨p, List.mem_cons_of_mem _ hp, hpid, hpu⟩
    bounded := fun i c hc => by
      obtain ⟨rfl, -⟩ | ⟨hi, -⟩ := hcell i c hc
      · exact Nat.lt_succ_self _
      · exact Nat.lt_succ_of_lt hi
    home := fun i c hc => by
      obtain ⟨-, rfl⟩ | ⟨-, hc⟩ := hcell i c hc
      · rfl
      · exact h.home i c hc
    served := fun i c hc => by
      obtain ⟨-, rfl⟩ | ⟨-, hc⟩ := hcell i c hc
      · exact ⟨t, rfl, ht⟩
      · exact h.served i c hc
    shown := fun i c hc => by
      obtain ⟨rfl, rfl⟩ | ⟨hi, hc⟩ := hcell i c hc
      · exact ⟨_, List.mem_cons_self, rfl, .inl ⟨rfl, rfl, if_pos rfl⟩⟩
      · obtain ⟨p, hp, hpayload, ⟨hpi, hfinalized, hplace⟩ | ⟨hother, hfinalized⟩⟩ :=
          h.shown i c hc
        · exact ⟨p, List.mem_cons_of_mem _ hp, hpayload,
            .inl ⟨hpi, hfinalized, (hold hp).trans hplace⟩⟩
        · refine ⟨p, List.mem_cons_of_mem _ hp, hpayload, .inr ⟨fun q hq => ?_, hfinalized⟩⟩
          obtain rfl | hq := List.mem_cons.mp hq
          · exact (Nat.ne_of_lt hi).symm
          · exact hother q hq
    single := fun i j c d hc hd he => by
      obtain ⟨rfl, rfl⟩ | ⟨-, hc⟩ := hcell i c hc <;> obtain ⟨rfl, rfl⟩ | ⟨-, hd⟩ := hcell j d hd
      · rfl
      · exact absurd he.symm (h.lacks hfresh j d hd)
      · exact absurd he (h.lacks hfresh i c hc)
      · exact h.single i j c d hc hd he
    pending := fun q hq => by
      obtain ⟨hserves, p, hp, hpayload, hlacks⟩ := h.pending q hq
      refine ⟨hserves, p, List.mem_cons_of_mem _ hp, hpayload, fun i c hc => ?_⟩
      obtain ⟨-, rfl⟩ | ⟨-, hc⟩ := hcell i c hc
      · exact fun he => hfresh p hp (Payload.proxy.inj he).symm
      · exact hlacks i c hc
    waiting := h.waiting
    rested := fun i c id' hc hfinalized hpayload hmem => by
      obtain ⟨-, rfl⟩ | ⟨-, hbefore⟩ := hcell i c hc
      · cases hfinalized
      · obtain he | hmem := List.mem_cons.mp hmem
        · exact absurd (he ▸ hpayload) (h.lacks hfresh i c hbefore)
        · exact h.rested i c id' hbefore hfinalized hpayload (mem_filter_ne.mp hmem).1 }

theorem Complete.enrol (h : R.Complete made) (hkept : R.Kept F made)
    (hfresh : ∀ p ∈ made, p.id ≠ id) (o : ObjectRef) :
    (R.enrol F id t).Complete (⟨⟨R.next⟩, id, o⟩ :: made) := by
  intro p hp hmem
  obtain rfl | hp := List.mem_cons.mp hp
  · exact .inl ⟨_, if_pos rfl⟩
  · have hcell : (R.enrol F id t).cell p.userdata.index = R.cell p.userdata.index :=
      enrol_cell_of_lt (hkept.begun p hp)
    rw [hcell]
    obtain he | hmem := List.mem_cons.mp hmem
    · exact absurd he (hfresh p hp)
    · exact h p hp (mem_filter_ne.mp hmem).1

end

/-! ## Proxies that die -/

/-- The cell of a userdata is emptied, and `buried` joins the queue. -/
def bury (R : Roster) (i : Nat) (buried : List Pending) : Roster :=
  { R with
    cell := fun j => if i = j then none else R.cell j
    pending := R.pending ++ buried }

theorem bury_cell {i j : Nat} {buried : List Pending} {c : Userdata}
    (hc : (R.bury i buried).cell j = some c) : i ≠ j ∧ R.cell j = some c := by
  have hc : (if i = j then none else R.cell j) = some c := hc
  split at hc
  · cases hc
  · rename_i hne
    exact ⟨hne, hc⟩

/-- What is buried was a proxy whose finalizer was not scheduled before. -/
theorem Kept.bury (h : R.Kept F made) {i : Nat} {c : Userdata} (hc : R.cell i = some c)
    {buried : List Pending}
    (hburied : ∀ q ∈ buried, q.payload = c.payload ∧ F.Serves q.metatable)
    (honce : buried.length ≤ 1) : (R.bury i buried).Kept F made :=
  { h with
    bounded := fun j d hd => h.bounded j d (bury_cell hd).2
    home := fun j d hd => h.home j d (bury_cell hd).2
    served := fun j d hd => h.served j d (bury_cell hd).2
    shown := fun j d hd => h.shown j d (bury_cell hd).2
    single := fun j k d e hd he => h.single j k d e (bury_cell hd).2 (bury_cell he).2
    pending := fun q hq => by
      obtain hq | hq := List.mem_append.mp hq
      · obtain ⟨hserves, p, hp, hpayload, hlacks⟩ := h.pending q hq
        exact ⟨hserves, p, hp, hpayload, fun j d hd => hlacks j d (bury_cell hd).2⟩
      · obtain ⟨hpayload, hserves⟩ := hburied q hq
        obtain ⟨p, hp, hshown, -⟩ := h.shown i c hc
        refine ⟨hserves, p, hp, hpayload.trans hshown, fun j d hd he => ?_⟩
        obtain ⟨hne, hd⟩ := bury_cell hd
        exact hne (h.single i j c d hc hd (hshown.trans he.symm))
    waiting := by
      show ((R.pending ++ buried).map Pending.payload).Nodup
      rw [List.map_append]
      refine List.nodup_append.mpr ⟨h.waiting, ?_, fun payload hold payload' hnew he => ?_⟩
      · match buried, honce with
        | [], _ => exact List.nodup_nil
        | [q], _ => exact List.nodup_cons.mpr ⟨List.not_mem_nil, List.nodup_nil⟩
      · obtain ⟨q, hq, rfl⟩ := List.mem_map.mp hold
        obtain ⟨q', hq', rfl⟩ := List.mem_map.mp hnew
        exact h.lacks_of_cell hq hc (he.trans (hburied q' hq').1)
    rested := fun j d id hd => h.rested j d id (bury_cell hd).2 }

/-- A proxy whose finalizer was not scheduled before is not lost when it is buried. -/
theorem Complete.bury (h : R.Complete made) (hkept : R.Kept F made) {i : Nat} {c : Userdata}
    (hc : R.cell i = some c) {buried : List Pending}
    (hburied : c.finalized = false → ∃ q ∈ buried, q.payload = c.payload) :
    (R.bury i buried).Complete made := by
  intro p hp hmem
  obtain ⟨d, hd⟩ | ⟨q, hq, hpayload⟩ := h p hp hmem
  · by_cases hi : i = p.userdata.index
    · have hc : R.cell p.userdata.index = some c := hi ▸ hc
      obtain ⟨hshown, hlive, -⟩ := hkept.shown_of_mem hp hc
      obtain ⟨q, hq, hpayload⟩ := hburied hlive
      exact .inr ⟨q, List.mem_append_right _ hq, hpayload.trans hshown⟩
    · exact .inl ⟨d, (if_neg hi).trans hd⟩
  · exact .inr ⟨q, List.mem_append_left _ hq, hpayload⟩

/-! ## Finalizers -/

/-- The userdata that comes back for a finalizer. -/
def revived (F : Fixture) (q : Pending) : Userdata :=
  { payload := q.payload, metatable := some q.metatable, home := F.home, finalized := true }

/-- A userdata with an id comes back for its finalizer; `rest` are those that still wait. -/
def revive (R : Roster) (F : Fixture) (q : Pending) (id : Nat) (rest : List Pending) : Roster :=
  { R with
    cell := fun i => if i = R.next then some (revived F q) else R.cell i
    next := R.next + 1
    pending := rest
    late := some id }

theorem Kept.revive (h : R.Kept F made) {q : Pending} {id : Nat} {rest : List Pending}
    (hpending : R.pending = q :: rest) (hlate : R.late = none) (hid : q.payload = .proxy id) :
    (R.revive F q id rest).Kept F made := by
  obtain ⟨hserves, p, hp, hpayload, hlacks⟩ := h.pending q (hpending ▸ List.mem_cons_self)
  have hcell (i : Nat) (c : Userdata) (hc : (R.revive F q id rest).cell i = some c) :
      (i = R.next ∧ c = revived F q) ∨ R.cell i = some c := by
    have hc : (if i = R.next then some (revived F q) else R.cell i) = some c := hc
    split at hc
    · rename_i hi
      exact .inl ⟨hi, (Option.some.inj hc).symm⟩
    · exact .inr hc
  have hwaiting := h.waiting
  rw [hpending, List.map_cons, List.nodup_cons] at hwaiting
  exact { h with
    begun := fun p hp => Nat.lt_succ_of_lt (h.begun p hp)
    bounded := fun i c hc => by
      obtain ⟨rfl, -⟩ | hc := hcell i c hc
      · exact Nat.lt_succ_self _
      · exact Nat.lt_succ_of_lt (h.bounded i c hc)
    home := fun i c hc => by
      obtain ⟨-, rfl⟩ | hc := hcell i c hc
      · rfl
      · exact h.home i c hc
    served := fun i c hc => by
      obtain ⟨-, rfl⟩ | hc := hcell i c hc
      · exact ⟨q.metatable, rfl, hserves⟩
      · exact h.served i c hc
    shown := fun i c hc => by
      obtain ⟨rfl, rfl⟩ | hc := hcell i c hc
      · exact ⟨p, hp, hpayload, .inr ⟨fun p' hp' => Nat.ne_of_lt (h.begun p' hp'), rfl⟩⟩
      · exact h.shown i c hc
    single := fun i j c d hc hd he => by
      obtain ⟨rfl, rfl⟩ | hc := hcell i c hc <;> obtain ⟨rfl, rfl⟩ | hd := hcell j d hd
      · rfl
      · exact absurd (he.symm.trans hpayload) (hlacks j d hd)
      · exact absurd (he.trans hpayload) (hlacks i c hc)
      · exact h.single i j c d hc hd he
    pending := fun q' hq' => by
      obtain ⟨hserves', p', hp', hpayload', hlacks'⟩ :=
        h.pending q' (hpending ▸ List.mem_cons_of_mem _ hq')
      refine ⟨hserves', p', hp', hpayload', fun i c hc => ?_⟩
      obtain ⟨-, rfl⟩ | hc := hcell i c hc
      · intro he
        refine hwaiting.1 (List.mem_map.mpr ⟨q', hq', ?_⟩)
        exact hpayload'.trans he.symm
      · exact hlacks' i c hc
    waiting := hwaiting.2
    rested := fun i c id' hc hfinalized hpayload' hmem => by
      obtain ⟨-, rfl⟩ | hc := hcell i c hc
      · rw [← Payload.proxy.inj (hid.symm.trans hpayload')]
        rfl
      · have hnone := h.rested i c id' hc hfinalized hpayload' hmem
        rw [hlate] at hnone
        cases hnone }

/-- A userdata that came back is no longer late once its id was taken back, or once it is gone. -/
theorem Kept.caughtUp (h : R.Kept F made)
    (hlate : ∀ id, R.late = some id → id ∉ R.materialized ∨ R.Lacks id) :
    Kept { R with late := none } F made :=
  { h with
    rested := fun i c id hc hfinalized hid hmem => by
      obtain hgone | hlacks := hlate id (h.rested i c id hc hfinalized hid hmem)
      · exact absurd hmem hgone
      · exact absurd hid (hlacks i c hc) }

/-- The finalizer of a proxy takes its id back, so that nothing is lost. -/
theorem Complete.finalize (h : R.Complete made) (hkept : R.Kept F made) {q : Pending}
    {rest : List Pending} (hpending : R.pending = q :: rest) {id : Nat}
    (hid : q.payload = .proxy id) : ((R.revive F q id rest).retake id).Complete made := by
  intro p hp hmem
  obtain ⟨hmem, hne⟩ := mem_filter_ne.mp hmem
  obtain ⟨c, hc⟩ | ⟨q', hq', hpayload⟩ := h p hp hmem
  · exact .inl ⟨c, (if_neg (Nat.ne_of_lt (hkept.begun p hp))).trans hc⟩
  · rw [hpending] at hq'
    obtain rfl | hq' := List.mem_cons.mp hq'
    · exact absurd (Payload.proxy.inj (hpayload.symm.trans hid)) hne
    · exact .inr ⟨q', hq', hpayload⟩

end Roster

end ScriptBridge
