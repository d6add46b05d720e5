import ScriptBridge.Proofs.Memory.Holding
import ScriptBridge.Proofs.Stack.Untouched
import ScriptBridge.Proofs.Vm.Leases
import ScriptBridge.Proofs.Vm.Reference

/-!
# Handles stay valid until they are dropped

Making a handle takes a reference number out of the registry table. Dropping its last clone only
queues the number, and collecting puts queued numbers back on the free list. The numbers are given
out again, so one release too early or too many would let a handle read the value of another one.

1. `Ledger` and `World.Leased` say where every lease on a number is: current, waiting or released.
2. Each step keeps that: looking at a note (`kept`, `retired`, `spared`), cloning and dropping
   (`hold`, `unhold`), collecting (`collected`) and making a handle (`made`).
3. `leasing_honors` draws the conclusion for every history of handles.
-/

namespace ScriptBridge

/-! ## The state of all leases -/

/-- The leases that were made: those whose handle is still there, those that wait for their
release, and those that were released. -/
structure Ledger where
  made : List Lease := []
  current : List Lease := []
  waiting : List Lease := []
  released : List Lease := []

/-- The ledger as lists. -/
structure Ledger.Balanced (L : Ledger) : Prop where
  whole : L.made.Perm (L.current ++ (L.waiting ++ L.released))
  distinct : (L.made.map Lease.handle).Nodup

namespace Ledger.Balanced

variable {L : Ledger}

theorem mem_made (h : L.Balanced) {l : Lease} (hl : l ∈ L.current) : l ∈ L.made :=
  h.whole.mem_iff.mpr (List.mem_append_left _ hl)

theorem nodup (h : L.Balanced) : L.made.Nodup := List.Nodup.of_map _ h.distinct

theorem current_nodup (h : L.Balanced) : L.current.Nodup :=
  (List.nodup_append.mp (h.whole.nodup_iff.mp h.nodup)).1

theorem eq_of_handle (h : L.Balanced) {l l' : Lease} (hl : l ∈ L.made) (hl' : l' ∈ L.made)
    (hhandle : l.handle = l'.handle) : l = l' :=
  List.inj_on_of_nodup_map h.distinct hl hl' hhandle

/-- The last clone of a handle is gone. -/
theorem retire (h : L.Balanced) {l : Lease} (hl : l ∈ L.current) :
    Balanced { L with current := L.current.erase l, waiting := L.waiting ++ [l] } where
  whole := by
    refine h.whole.trans (((List.perm_cons_erase hl).append_right _).trans ?_)
    rw [List.append_assoc, List.cons_append]
    refine List.perm_middle.symm.trans (List.Perm.append_left _ ?_)
    exact List.perm_middle.symm
  distinct := h.distinct

/-- A new handle gets a lease. -/
theorem make (h : L.Balanced) {l : Lease} (hl : ∀ l' ∈ L.made, l'.handle ≠ l.handle) :
    Balanced { L with made := L.made ++ [l], current := L.current ++ [l] } where
  whole := by
    refine (List.perm_append_singleton l L.made).trans ((h.whole.cons l).trans ?_)
    rw [List.append_assoc]
    exact List.perm_middle.symm
  distinct := by
    rw [List.map_append]
    refine List.nodup_append.mpr ⟨h.distinct, List.nodup_singleton _, fun x hx y hy => ?_⟩
    obtain ⟨l', hl', rfl⟩ := List.mem_map.mp hx
    obtain rfl := List.mem_singleton.mp hy
    exact hl l' hl'

/-- The queue is worked off. -/
theorem release (h : L.Balanced) :
    Balanced { L with waiting := [], released := L.released ++ L.waiting } where
  whole := h.whole.trans (List.Perm.append_left _ List.perm_append_comm)
  distinct := h.distinct

end Ledger.Balanced

/-- The registry table is there and its numbers are in three lots. -/
def World.Numbered (w : World) (current : List Lease) (queue free : List Int) : Prop :=
  ∃ t, w.tables.get? w.machine.registry.index = some t ∧
    t.Numbered w.machine.nextRef current queue free

theorem World.Numbered.lots {w : World} {current : List Lease} {queue free : List Int}
    (h : w.Numbered current queue free) : w.Lots (current.map Lease.entry) queue free := by
  obtain ⟨t, ht, hnumbered⟩ := h
  exact ⟨t, ht, hnumbered.lots⟩

theorem World.Numbered.small {w : World} {current : List Lease} {queue free : List Int}
    (h : w.Numbered current queue free) : w.machine.nextRef ≤ IntegerKind.i32.hi := by
  obtain ⟨t, -, hnumbered⟩ := h
  exact hnumbered.small

theorem World.Lots.numbered {w : World} {current : List Lease} {queue free : List Int}
    (h : w.Lots (current.map Lease.entry) queue free)
    (hsmall : w.machine.nextRef ≤ IntegerKind.i32.hi) : w.Numbered current queue free := by
  obtain ⟨t, ht, hlots⟩ := h
  exact ⟨t, ht, hlots.numbered hsmall⟩

/-- What a world has to do with the leases of one of its sessions. Handles from `base` on are made
under these leases, and only the host's hands hold them. -/
structure World.Leased (w : World) (base id : Nat) (L : Ledger) : Prop where
  frame : w.machine.HasFrame
  session : ∃ s, w.machine.session = some s ∧ s.id = id ∧ s.releases = L.waiting.map Lease.number
  numbers : ∃ free, w.Numbered L.current (L.waiting.map Lease.number) free
  ledger : L.Balanced
  there : ∀ l ∈ L.current, w.handles.get? l.handle.index = some ⟨id, l.number⟩
  only : ∀ i c, w.handles.get? i = some c → c.session = id → ∃ l ∈ L.current, l.handle.index = i
  live : ∀ l ∈ L.current, w.isLive l.value = true
  range : ∀ l ∈ L.made, base ≤ l.handle.index ∧ l.handle.index < w.handles.next
  begins : base ≤ w.handles.next
  byHand : ∀ h : HandleRef, base ≤ h.index → w.HeldByHand h
  unmade : ∀ h : HandleRef, w.handles.next ≤ h.index → Ref.handle h ∉ w.held
  held : ∀ l ∈ L.made, Ref.handle l.handle ∈ w.held → l ∈ L.current
  noted : ∀ l ∈ L.current, Ref.handle l.handle ∈ w.held ∨ ∃ d ∈ w.dropped, d.ref = .handle l.handle

namespace World.Leased

variable {w : World} {base id : Nat} {L : Ledger} {d : Dropped} {rest : List Dropped}

theorem holds_iff (h : w.Leased base id L) {l : Lease} (hl : l ∈ L.made) :
    w.holds (.handle l.handle) = true ↔ Ref.handle l.handle ∈ w.held :=
  (h.byHand l.handle (h.range l hl).1).holds_iff

/-! ## Settling -/

/-- A note is passed over. -/
theorem kept (h : w.Leased base id L) (hdropped : w.dropped = d :: rest)
    (hkept : (∃ d' ∈ rest, d'.ref = d.ref) ∨ w.holds d.ref = true) :
    { w with dropped := rest }.Leased base id L :=
  { h with
    byHand := fun a ha =>
      ⟨(h.byHand a ha).cells, (h.byHand a ha).bindings, (h.byHand a ha).activations⟩
    noted := fun l hl => by
      obtain hheld | ⟨d', hd', he⟩ := h.noted l hl
      · exact .inl hheld
      · rw [hdropped] at hd'
        obtain rfl | hd' := List.mem_cons.mp hd'
        · obtain ⟨d'', hd'', he'⟩ | hholds := hkept
          · exact .inr ⟨d'', hd'', he'.trans he⟩
          · rw [he] at hholds
            exact .inl ((h.holds_iff (h.ledger.mem_made hl)).mp hholds)
        · exact .inr ⟨d', hd', he⟩ }

/-- The last clone of a handle is gone, so its cell is emptied and its number is queued. -/
theorem retired (h : w.Leased base id L) (hdropped : w.dropped = d :: rest)
    {l : Lease} (hl : l ∈ L.current) (hd : d.ref = .handle l.handle)
    (hfree : w.holds d.ref = false) :
    (w.reclaimed d rest).Leased base id
      { L with current := L.current.erase l, waiting := L.waiting ++ [l] } := by
  obtain ⟨s, hs, hid, hreleases⟩ := h.session
  obtain ⟨free, t, ht, hnumbered⟩ := h.numbers
  have hheld : Ref.handle l.handle ∉ w.held := by
    rw [hd, Bool.eq_false_iff, ne_eq, h.holds_iff (h.ledger.mem_made hl)] at hfree
    exact hfree
  obtain ⟨r, during⟩ := d
  obtain rfl : r = .handle l.handle := hd
  have hempty : { w with dropped := rest }.empty ⟨.handle l.handle, during⟩ = ({ w with
      dropped := rest
      handles := w.handles.erase l.handle.index
      machine := w.machine.queueRelease id l.number
      parked := w.parked.map (·.queueRelease id l.number) }, []) :=
    empty_handle_some (w := { w with dropped := rest }) during (h.there l hl)
  have hw : w.reclaimed ⟨.handle l.handle, during⟩ rest = { w with
      dropped := rest
      handles := w.handles.erase l.handle.index
      machine := w.machine.queueRelease id l.number
      parked := w.parked.map (·.queueRelease id l.number) } := by
    unfold reclaimed
    rw [hempty]
    rfl
  have hne {l' : Lease} (hl' : l' ∈ L.current.erase l) : l'.handle.index ≠ l.handle.index := by
    intro hi
    obtain ⟨hne, hmem⟩ := (h.ledger.current_nodup.mem_erase_iff).mp hl'
    exact hne (h.ledger.eq_of_handle (h.ledger.mem_made hmem) (h.ledger.mem_made hl)
      (HandleRef.ext hi))
  have hmem {l' : Lease} (hl' : l' ∈ L.current.erase l) : l' ∈ L.current :=
    List.mem_of_mem_erase hl'
  have hapart (a : HandleRef) (ha : base ≤ a.index) :
      (w.reclaimed ⟨.handle l.handle, during⟩ rest).HeldByHand a :=
    (h.byHand a ha).reclaimed
  rw [hw] at hapart ⊢
  exact {
    frame := h.frame
    session := by
      refine ⟨{ s with releases := s.releases ++ [l.number] }, ?_, hid, ?_⟩
      · show w.machine.session.map _ = _
        rw [hs, Option.map_some, if_pos (beq_iff_eq.mpr hid)]
      · show s.releases ++ [l.number] = (L.waiting ++ [l]).map Lease.number
        rw [hreleases, List.map_append]
        rfl
    numbers := by
      refine ⟨free, t, ht, ?_⟩
      show t.Numbered _ _ ((L.waiting ++ [l]).map Lease.number) free
      rw [List.map_append]
      exact hnumbered.retire hl
    ledger := h.ledger.retire hl
    there := fun l' hl' =>
      (Store.get?_erase_of_ne _ (hne hl').symm).trans (h.there l' (hmem hl'))
    only := fun i c hc hsession => by
      obtain ⟨l', hl', hi⟩ := h.only i c (Store.get?_of_erase _ hc) hsession
      refine ⟨l', (List.mem_erase_of_ne fun he => ?_).mpr hl', hi⟩
      have hc : (w.handles.erase l.handle.index).get? i = some c := hc
      rw [Store.get?_erase, if_pos (by rw [← hi, he])] at hc
      cases hc
    live := fun l' hl' => h.live l' (hmem hl')
    range := fun l' hl' => by
      show _ ∧ _ < (w.handles.erase l.handle.index).next
      rw [Store.next_erase]
      exact h.range l' hl'
    begins := by
      show base ≤ (w.handles.erase l.handle.index).next
      rw [Store.next_erase]
      exact h.begins
    byHand := hapart
    unmade := fun a ha => by
      have ha : (w.handles.erase l.handle.index).next ≤ a.index := ha
      rw [Store.next_erase] at ha
      exact h.unmade a ha
    held := fun l' hl' hin => by
      refine (List.mem_erase_of_ne fun he => hheld ?_).mpr (h.held l' hl' hin)
      rw [← he]
      exact hin
    noted := fun l' hl' => by
      obtain hin | ⟨d', hd', he⟩ := h.noted l' (hmem hl')
      · exact .inl hin
      · rw [hdropped] at hd'
        obtain rfl | hd' := List.mem_cons.mp hd'
        · exact absurd (congrArg HandleRef.index (Ref.handle.inj he)) (hne hl').symm
        · exact .inr ⟨d', hd', he⟩ }

/-- Another cell is emptied. -/
theorem spared (h : w.Leased base id L) (hdropped : w.dropped = d :: rest)
    (hd : ∀ l ∈ L.current, d.ref ≠ .handle l.handle) (hfree : w.holds d.ref = false) :
    (w.reclaimed d rest).Leased base id L := by
  obtain ⟨s, hs, hid, hreleases⟩ := h.session
  obtain ⟨free, t, ht, hnumbered⟩ := h.numbers
  let w₁ : World := { w with dropped := rest }
  have hspares := empty_spares w₁ d
  have hemptied := empty_emptied w₁ d
  have hsame := empty_sameStack w₁ d
  have hnext := handles_next_empty w₁ d
  have hregistry : d.ref ≠ .table w.machine.registry := by
    intro he
    rw [he, holds_registry] at hfree
    cases hfree
  have hheld : (w.reclaimed d rest).held = w.held := hspares.held
  have hsession : (w.reclaimed d rest).machine.session = some s := by
    refine session_of_empty (w := w₁) hs fun a cell ha hcell hsession => ?_
    obtain ⟨l, hl, hi⟩ := h.only a.index cell hcell (hsession.trans hid)
    exact hd l hl (ha.trans (congrArg Ref.handle (HandleRef.ext hi.symm)))
  exact {
    frame := hsame.hasFrame h.frame
    session := ⟨s, hsession, hid, hreleases⟩
    numbers := by
      refine ⟨free, t, ?_, ?_⟩
      · show (w₁.empty d).1.tables.get?
          (w₁.empty d).1.machine.registry.index = some t
        rw [hspares.registry]
        exact (hspares.tables _ hregistry).trans ht
      · show t.Numbered (w₁.empty d).1.machine.nextRef _ _ _
        rw [hspares.nextRef]
        exact hnumbered
    ledger := h.ledger
    there := fun l hl => (hemptied.handles l.handle (hd l hl).symm).trans (h.there l hl)
    only := fun i c hc => h.only i c (handles_of_empty (w := w₁) (d := d) hc)
    live := fun l hl => by
      refine (hspares.isLive fun hmem => ?_).trans (h.live l hl)
      have hcell : d.ref ∈ w.cellRefs (.table w.machine.registry) := by
        show d.ref ∈ ((w.tables.get? w.machine.registry.index).map Table.refs).getD []
        rw [ht]
        exact hnumbered.mem_refs hl hmem
      rw [holds_of_cell hcell] at hfree
      cases hfree
    range := fun l hl => by
      show _ ∧ _ < (w₁.empty d).1.handles.next
      rw [hnext]
      exact h.range l hl
    begins := by
      show base ≤ (w₁.empty d).1.handles.next
      rw [hnext]
      exact h.begins
    byHand := fun a ha => (h.byHand a ha).reclaimed
    unmade := fun a ha => by
      have ha : (w₁.empty d).1.handles.next ≤ a.index := ha
      rw [hnext] at ha
      rw [hheld]
      exact h.unmade a ha
    held := by
      rw [hheld]
      exact h.held
    noted := fun l hl => by
      rw [hheld]
      obtain hin | ⟨d', hd', he⟩ := h.noted l hl
      · exact .inl hin
      · rw [hdropped] at hd'
        obtain rfl | hd' := List.mem_cons.mp hd'
        · exact absurd he (hd l hl)
        · exact .inr ⟨d', List.mem_append_right _ hd', he⟩ }

/-- Settling may retire leases. -/
theorem settled (h : w.Leased base id L) : ∃ L' : Ledger, L'.made = L.made ∧
    L'.released = L.released ∧ w.settle.Leased base id L' ∧ w.settle.held = w.held := by
  refine settle_keeps (P := fun w' => ∃ L' : Ledger, L'.made = L.made ∧
    L'.released = L.released ∧ w'.Leased base id L' ∧ w'.held = w.held) ?_ ?_
    ⟨L, rfl, rfl, h, rfl⟩
  · rintro w' d rest hdropped ⟨L', hmade, hreleased, h', hheld⟩ hkept
    exact ⟨L', hmade, hreleased, h'.kept hdropped hkept, hheld⟩
  · rintro w' d rest hdropped ⟨L', hmade, hreleased, h', hheld⟩ hfree
    have hheld' : (w'.reclaimed d rest).held = w.held :=
      (empty_spares { w' with dropped := rest } d).held.trans hheld
    by_cases hd : ∃ l ∈ L'.current, d.ref = .handle l.handle
    · obtain ⟨l, hl, hd⟩ := hd
      exact ⟨{ L' with current := L'.current.erase l, waiting := L'.waiting ++ [l] }, hmade,
        hreleased, h'.retired hdropped hl hd hfree, hheld'⟩
    · refine ⟨L', hmade, hreleased, h'.spared hdropped (fun l hl he => hd ⟨l, hl, he⟩) hfree,
        hheld'⟩

/-- Settling retires no lease as long as every handle is in the host's hands. -/
theorem settled_of_held (h : w.Leased base id L)
    (hheld : ∀ l ∈ L.current, Ref.handle l.handle ∈ w.held) :
    w.settle.Leased base id L ∧ w.settle.held = w.held := by
  refine settle_keeps (P := fun w' => w'.Leased base id L ∧ w'.held = w.held) ?_ ?_ ⟨h, rfl⟩
  · rintro w' d rest hdropped ⟨h', hsame⟩ hkept
    exact ⟨h'.kept hdropped hkept, hsame⟩
  · rintro w' d rest hdropped ⟨h', hsame⟩ hfree
    refine ⟨h'.spared hdropped (fun l hl he => ?_) hfree,
      (empty_spares { w' with dropped := rest } d).held.trans hsame⟩
    rw [he, (h'.holds_iff (h'.ledger.mem_made hl)).mpr (hsame ▸ hheld l hl)] at hfree
    cases hfree

/-! ## Clones -/

/-- A handle with a clone is cloned again. -/
theorem hold (h : w.Leased base id L) {l : Lease} (hl : l ∈ L.made)
    (hheld : Ref.handle l.handle ∈ w.held) :
    (ScriptBridge.hold [.handle l.handle] w).2.Leased base id L :=
  { h with
    byHand := fun a ha =>
      ⟨(h.byHand a ha).cells, (h.byHand a ha).bindings, (h.byHand a ha).activations⟩
    unmade := fun a ha hin => by
      obtain he | hin := List.mem_cons.mp hin
      · have ha : w.handles.next ≤ a.index := ha
        have hlt := (h.range l hl).2
        rw [Ref.handle.inj he] at ha
        omega
      · exact h.unmade a ha hin
    held := fun l' hl' hin => by
      obtain he | hin := List.mem_cons.mp hin
      · rw [h.ledger.eq_of_handle hl' hl (Ref.handle.inj he)]
        exact h.held l hl hheld
      · exact h.held l' hl' hin
    noted := fun l' hl' => (h.noted l' hl').imp_left fun hin => List.mem_cons_of_mem _ hin }

/-- A clone is dropped. -/
theorem unhold (h : w.Leased base id L) (l : Lease) :
    (ScriptBridge.unhold [.handle l.handle] w).2.Leased base id L := by
  have hw : (ScriptBridge.unhold [.handle l.handle] w).2 = { w with
      held := w.held.erase (.handle l.handle)
      dropped := w.dropped ++ [⟨.handle l.handle, none⟩] } := rfl
  rw [hw]
  exact { h with
    byHand := fun a ha =>
      ⟨(h.byHand a ha).cells, (h.byHand a ha).bindings, (h.byHand a ha).activations⟩
    unmade := fun a ha hin => h.unmade a ha (List.mem_of_mem_erase hin)
    held := fun l' hl' hin => h.held l' hl' (List.mem_of_mem_erase hin)
    noted := fun l' hl' => by
      by_cases he : l'.handle = l.handle
      · refine .inr
          ⟨⟨.handle l.handle, none⟩, List.mem_append_right _ (List.mem_singleton_self _), ?_⟩
        rw [he]
      · obtain hin | ⟨d, hd, hd'⟩ := h.noted l' hl'
        · exact .inl ((List.mem_erase_of_ne fun hr => he (Ref.handle.inj hr)).mpr hin)
        · exact .inr ⟨d, List.mem_append_left _ hd, hd'⟩ }

end World.Leased

/-! ## Writes into the registry table -/

theorem World.Rewritten.heldByHand {w w' : World} (h : w.Rewritten w') {a : HandleRef}
    (ha : w.HeldByHand a) : w'.HeldByHand a := by
  obtain ⟨next, hsame⟩ := h.same
  have hcells (c : Ref) : (∃ t, c = .table t) ∨ w'.cellRefs c = w.cellRefs c := by
    cases c with
    | table t => exact .inl ⟨t, rfl⟩
    | _ =>
      rw [hsame]
      exact .inr rfl
  refine ⟨fun c hc => ?_, ?_, ?_⟩
  · obtain ⟨t, rfl⟩ | hsame := hcells c
    · exact w'.handle_not_mem_table t a hc
    · rw [hsame] at hc
      exact ha.cells c hc
  · rw [hsame]
    exact ha.bindings
  · rw [hsame]
    exact ha.activations

/-- A release puts the number at the head of the queue back on the free list. -/
theorem releaseRef_numbered {w : World} {current : List Lease} {r : Int} {queue free : List Int}
    (h : w.Numbered current (r :: queue) free) : ∃ w', releaseRef r w = ((), w') ∧
      w.Rewritten w' ∧ w'.Numbered current queue (r :: free) := by
  obtain ⟨w', hrelease, hrewritten, hmachine, hlots⟩ := releaseRef_lots h.lots
  exact ⟨w', hrelease, hrewritten, hlots.numbered (hmachine ▸ h.small)⟩

/-- Working off a queue puts all its numbers on the free list. -/
theorem releaseRefs_numbered {w : World} {current : List Lease} {queue free : List Int}
    (h : w.Numbered current queue free) : ∃ w' free', queue.forM releaseRef w = ((), w') ∧
      w.Rewritten w' ∧ w'.Numbered current [] free' := by
  induction queue generalizing w free with
  | nil => exact ⟨w, free, rfl, .refl w, h⟩
  | cons r rest ih =>
    obtain ⟨w₁, hstep, hrewritten, hnumbered⟩ := releaseRef_numbered h
    obtain ⟨w₂, free', hsteps, hrewritten', hnumbered'⟩ := ih hnumbered
    have hall : (r :: rest).forM releaseRef w = ((), w₂) := (bind_of_eq hstep).trans hsteps
    exact ⟨w₂, free', hall, hrewritten.trans hrewritten', hnumbered'⟩

/-- A new reference takes a free number, or else one that was never given out. -/
theorem createRef_numbered {w : World} {current : List Lease} {queue free : List Int}
    (h : w.Numbered current queue free) (handle : HandleRef) {v : Value} (hv : v.isNil = false)
    (hroom : (createRef v w).2.machine.nextRef ≤ IntegerKind.i32.hi) :
    ∃ w' r free', createRef v w = (r, w') ∧ w.Rewritten w' ∧
      w'.Numbered (current ++ [⟨handle, v, r⟩]) queue free' := by
  obtain ⟨w', hcreate, hrewritten, -, hlots⟩ := createRef_lots h.lots hv fun _ => h.small
  rw [hcreate] at hroom
  have hlots : w'.Lots ((current ++ [(⟨handle, v, free.head?.getD w.machine.nextRef⟩ : Lease)]).map
      Lease.entry) queue free.tail := by
    rw [List.map_append]
    exact hlots
  exact ⟨w', _, _, hcreate, hrewritten, hlots.numbered hroom⟩

namespace World.Leased

variable {w w' : World} {base id : Nat} {L : Ledger}

/-! ## Collecting -/

/-- The references of a world whose queue was worked off. -/
theorem released (h : w.Leased base id L) {free : List Int}
    (hrewritten : (modifySession (fun s => { s with releases := [] }) w).2.Rewritten w')
    (hnumbered : w'.Numbered L.current [] free) :
    w'.Leased base id { L with waiting := [], released := L.released ++ L.waiting } := by
  obtain ⟨s, hs, hid, -⟩ := h.session
  have hbyHand (a : HandleRef) (ha : base ≤ a.index) : w'.HeldByHand a :=
    hrewritten.heldByHand ⟨(h.byHand a ha).cells, (h.byHand a ha).bindings,
      (h.byHand a ha).activations⟩
  have hlive := hrewritten.isLive
  have hdropped := hrewritten.dropped
  obtain ⟨next, hsame⟩ := hrewritten.same
  rw [hsame] at hnumbered hbyHand hlive hdropped ⊢
  exact {
    frame := h.frame
    session := by
      refine ⟨{ s with releases := [] }, ?_, hid, rfl⟩
      show w.machine.session.map _ = _
      rw [hs]
      rfl
    numbers := ⟨free, hnumbered⟩
    ledger := h.ledger.release
    there := h.there
    only := h.only
    live := fun l hl => (hlive l.value).trans (h.live l hl)
    range := h.range
    begins := h.begins
    byHand := hbyHand
    unmade := h.unmade
    held := h.held
    noted := fun l hl => (h.noted l hl).imp_right fun ⟨d, hd, he⟩ => ⟨d, hdropped d hd, he⟩ }

/-- After collecting, the queue is empty and only handles in the host's hands have leases. -/
theorem collected (h : w.Leased base id L) : ∃ L' : Ledger, L'.made = L.made ∧
    L'.waiting = [] ∧ (collectReleased w).2.Leased base id L' ∧
    (∃ s, w.settle.machine.session = some s ∧
      L'.released.map Lease.number = L.released.map Lease.number ++ s.releases) ∧
    (collectReleased w).2.held = w.held ∧
    ∀ l ∈ L'.current, Ref.handle l.handle ∈ w.held := by
  obtain ⟨L', hmade, hreleased, h', hheld⟩ := h.settled
  obtain ⟨s, hs, -, hqueue⟩ := h'.session
  obtain ⟨free, hnumbered⟩ := h'.numbers
  let w₁ : World := (modifySession (fun s => { s with releases := [] }) w.settle).2
  have hnumbered₁ : w₁.Numbered L'.current s.releases free := by
    rw [hqueue]
    exact hnumbered
  obtain ⟨w₂, free', hsteps, hrewritten, hnumbered₂⟩ := releaseRefs_numbered hnumbered₁
  have h₂ := h'.released hrewritten hnumbered₂
  have hcurrent (l : Lease) (hl : l ∈ L'.current) : Ref.handle l.handle ∈ w.held := by
    obtain hin | ⟨d, hd, -⟩ := h'.noted l hl
    · rw [← hheld]
      exact hin
    · rw [settle_dropped] at hd
      exact absurd hd List.not_mem_nil
  have hheld₂ : w₂.held = w.held := by
    obtain ⟨next, hsame⟩ := hrewritten.same
    rw [hsame]
    exact hheld
  obtain ⟨h₃, hheld₃⟩ := h₂.settled_of_held fun l hl => hheld₂.symm ▸ hcurrent l hl
  have hcollect : (collectReleased w).2 = w₂.settle := by
    have hsettle : ScriptBridge.settle w = ((), w.settle) := rfl
    have hread : readSession w.settle = (s, w.settle) := by
      show (w.settle.machine.session.getD default, w.settle) = (s, w.settle)
      rw [hs]
      rfl
    have hclear : modifySession (fun s => { s with releases := [] }) w.settle = ((), w₁) := rfl
    have hlast : ScriptBridge.settle w₂ = ((), w₂.settle) := rfl
    unfold collectReleased
    rw [bind_of_eq hsettle, bind_of_eq hread, bind_of_eq hclear, bind_of_eq hsteps,
      bind_of_eq hlast]
    rfl
  rw [hcollect]
  refine ⟨{ L' with waiting := [], released := L'.released ++ L'.waiting }, hmade, rfl, h₃,
    ⟨s, hs, ?_⟩, hheld₃.trans hheld₂, hcurrent⟩
  show (L'.released ++ L'.waiting).map Lease.number = _
  rw [List.map_append, hreleased, hqueue]

/-! ## Making handles -/

end World.Leased

/-- The number a handle refers to. -/
def World.numberOf (w : World) (h : HandleRef) : Int :=
  ((w.handles.get? h.index).map (·.reference)).getD Reference.nil

/-- What making a handle does once its reference is created. -/
theorem toHandle_eq {w w' : World} (hframe : w.machine.HasFrame) {v : Value} {r : Int}
    (hcreate : createRef v w = (r, w')) :
    toHandle v w = (⟨w'.handles.next⟩, { w' with
      handles := w'.handles.add ⟨(w'.machine.session.getD default).id, r⟩ }) := by
  have hpush : push v w = ((), { w with machine := w.machine.push v }) := rfl
  have hpop : popValue { w with machine := w.machine.push v } = (v, w) := by
    show ((w.machine.push v).popValue.1,
      { w with machine := (w.machine.push v).popValue.2 }) = (v, w)
    rw [Machine.popValue_push hframe]
  have hread : readSession w' = (w'.machine.session.getD default, w') := rfl
  unfold toHandle
  rw [bind_of_eq hpush, bind_of_eq hpop, bind_of_eq hcreate, bind_of_eq hread]
  rfl

/-- The host makes a handle on a value and keeps it. -/
def keepHandle (v : Value) : Action HandleRef := do
  let h ← toHandle v
  hold [.handle h]
  return h

/-- The lease of a handle that is just made. -/
def World.newLease (w : World) (v : Value) : Lease :=
  ⟨(keepHandle v w).1, v, (keepHandle v w).2.numberOf (keepHandle v w).1⟩

namespace World.Leased

variable {w w' : World} {base id : Nat} {L : Ledger}

theorem handles_add (h : w.Leased base id L) (c : Handle) {l : Lease} (hl : l ∈ L.made) :
    (w.handles.add c).get? l.handle.index = w.handles.get? l.handle.index :=
  Store.get?_add_of_lt _ _ (h.range l hl).2

/-- Making a handle and keeping it. -/
theorem keepHandle_eq (hframe : w.machine.HasFrame) {v : Value} {r : Int}
    (hcreate : createRef v w = (r, w')) :
    keepHandle v w = (⟨w'.handles.next⟩, { w' with
      handles := w'.handles.add ⟨(w'.machine.session.getD default).id, r⟩
      held := .handle ⟨w'.handles.next⟩ :: w'.held }) := by
  unfold keepHandle
  rw [bind_of_eq (toHandle_eq hframe hcreate)]
  rfl

/-- A new handle has a lease, on a number that no other lease is on. -/
theorem made (h : w.Leased base id L) {v : Value} (hv : v.isNil = false)
    (hlive : w.isLive v = true)
    (hroom : (keepHandle v w).2.machine.nextRef ≤ IntegerKind.i32.hi) :
    (keepHandle v w).2.Leased base id
      { L with made := L.made ++ [w.newLease v], current := L.current ++ [w.newLease v] } := by
  obtain ⟨s, hs, hid, hreleases⟩ := h.session
  obtain ⟨free, hnumbered⟩ := h.numbers
  have hroom' : (createRef v w).2.machine.nextRef ≤ IntegerKind.i32.hi := by
    rw [keepHandle_eq h.frame (Prod.eta (createRef v w)).symm] at hroom
    exact hroom
  obtain ⟨w₁, r, free', hcreate, hrewritten, hnumbered₁⟩ :=
    createRef_numbered hnumbered ⟨w.handles.next⟩ hv hroom'
  have hkeep := keepHandle_eq h.frame hcreate
  have hbyHand (a : HandleRef) (ha : base ≤ a.index) : w₁.HeldByHand a :=
    hrewritten.heldByHand (h.byHand a ha)
  have hisLive := hrewritten.isLive
  have hdropped := hrewritten.dropped
  obtain ⟨next, hsame⟩ := hrewritten.same
  have hhandles : w₁.handles = w.handles := by
    rw [hsame]
  have hheld : w₁.held = w.held := by
    rw [hsame]
  have hsession : w₁.machine.session = some s := by
    rw [hsame]
    exact hs
  have hframe : w₁.machine.HasFrame := by
    rw [hsame]
    exact h.frame
  rw [hhandles, hheld, hsession, Option.getD_some, hid] at hkeep
  have hlease : w.newLease v = ⟨⟨w.handles.next⟩, v, r⟩ := by
    unfold newLease numberOf
    rw [hkeep]
    show Lease.mk _ _ ((((w.handles.add ⟨id, r⟩).get? w.handles.next).map _).getD _) = _
    rw [Store.get?_add, if_pos rfl]
    rfl
  rw [hkeep, hlease]
  have hnew (l : Lease) (hl : l ∈ L.made) : l.handle ≠ ⟨w.handles.next⟩ := by
    intro he
    have hlt := (h.range l hl).2
    rw [he] at hlt
    exact Nat.lt_irrefl _ hlt
  have hnext : (w.handles.add ⟨id, r⟩).next = w.handles.next + 1 := Store.next_add _ _
  exact {
    frame := hframe
    session := ⟨s, hsession, hid, hreleases⟩
    numbers := ⟨free', hnumbered₁⟩
    ledger := h.ledger.make hnew
    there := fun l hl => by
      obtain hl | hl := List.mem_append.mp hl
      · exact (h.handles_add _ (h.ledger.mem_made hl)).trans (h.there l hl)
      · obtain rfl := List.mem_singleton.mp hl
        show (w.handles.add ⟨id, r⟩).get? w.handles.next = _
        rw [Store.get?_add, if_pos rfl]
    only := fun i c hc hsession => by
      have hc : (w.handles.add ⟨id, r⟩).get? i = some c := hc
      rw [Store.get?_add] at hc
      split at hc
      · rename_i hi
        exact ⟨_, List.mem_append_right _ (List.mem_singleton_self _), hi.symm⟩
      · obtain ⟨l, hl, hi⟩ := h.only i c hc hsession
        exact ⟨l, List.mem_append_left _ hl, hi⟩
    live := fun l hl => by
      refine (hisLive l.value).trans ?_
      obtain hl | hl := List.mem_append.mp hl
      · exact h.live l hl
      · obtain rfl := List.mem_singleton.mp hl
        exact hlive
    range := fun l hl => by
      show _ ∧ _ < (w.handles.add ⟨id, r⟩).next
      rw [hnext]
      obtain hl | hl := List.mem_append.mp hl
      · obtain ⟨hbase, hlt⟩ := h.range l hl
        exact ⟨hbase, Nat.lt_succ_of_lt hlt⟩
      · obtain rfl := List.mem_singleton.mp hl
        exact ⟨h.begins, Nat.lt_succ_self _⟩
    begins := by
      show base ≤ (w.handles.add ⟨id, r⟩).next
      rw [hnext]
      exact Nat.le_succ_of_le h.begins
    byHand := fun a ha =>
      ⟨(hbyHand a ha).cells, (hbyHand a ha).bindings, (hbyHand a ha).activations⟩
    unmade := fun a ha hin => by
      have ha : (w.handles.add ⟨id, r⟩).next ≤ a.index := ha
      rw [hnext] at ha
      obtain he | hin := List.mem_cons.mp hin
      · rw [Ref.handle.inj he] at ha
        exact Nat.not_succ_le_self _ ha
      · exact h.unmade a (Nat.le_of_succ_le ha) hin
    held := fun l hl hin => by
      obtain hl | hl := List.mem_append.mp hl
      · obtain he | hin := List.mem_cons.mp hin
        · exact absurd (Ref.handle.inj he) (hnew l hl)
        · exact List.mem_append_left _ (h.held l hl hin)
      · exact List.mem_append_right _ hl
    noted := fun l hl => by
      obtain hl | hl := List.mem_append.mp hl
      · refine (h.noted l hl).imp (fun hin => List.mem_cons_of_mem _ hin) ?_
        exact fun ⟨d, hd, he⟩ => ⟨d, hdropped d hd, he⟩
      · obtain rfl := List.mem_singleton.mp hl
        exact .inl List.mem_cons_self }

/-! ## Reading handles -/

/-- A handle with a lease pushes the value it was made for, and nothing else. -/
theorem pushHandle (h : w.Leased base id L) {l : Lease} (hl : l ∈ L.current) :
    ScriptBridge.pushHandle l.handle w =
      ((), { w with machine := w.machine.push l.value }) := by
  obtain ⟨s, hs, hid, -⟩ := h.session
  obtain ⟨free, hnumbered⟩ := h.numbers
  have hreference : readRef l.number w = (l.value, w) :=
    hnumbered.lots.readRef (List.mem_map_of_mem hl)
  have hread : readSession w = (s, w) := by
    show (w.machine.session.getD default, w) = (s, w)
    rw [hs]
    rfl
  have hvalue : handleValue l.handle w = (l.value, w) := by
    unfold handleValue
    rw [bind_of_eq (get_eq w), h.there l hl]
    dsimp only
    rw [bind_of_eq hread, if_pos (beq_iff_eq.mpr hid.symm)]
    exact hreference
  unfold ScriptBridge.pushHandle
  rw [bind_of_eq hvalue]
  rfl

end World.Leased

/-- A number that was given out and is not on the free list. -/
def World.InUse (w : World) (r : Int) : Prop :=
  0 < r ∧ r < w.machine.nextRef ∧ ∃ free, (w.table w.machine.registry).Frees w.isLive
    (w.fieldOf w.machine.registry Reference.freeField) free ∧ r ∉ free

/-- The numbers in use are those of leases and of the queue. -/
theorem World.Leased.inUse_iff {w : World} {base id : Nat} {L : Ledger} (h : w.Leased base id L)
    (r : Int) : w.InUse r ↔ r ∈ L.current.map Lease.number ++ L.waiting.map Lease.number := by
  obtain ⟨free, t, ht, hnumbered⟩ := h.numbers
  have hfrees := (hnumbered.slots.congr_live w.isLive).free
  have hfield : w.fieldOf w.machine.registry Reference.freeField =
      t.getText w.isLive Reference.freeField := by
    unfold fieldOf
    rw [table_of_get? ht]
  have hdisjoint := hnumbered.nodup
  have hcovers := hnumbered.covers r
  rw [← List.append_assoc] at hdisjoint hcovers
  unfold InUse
  rw [hfield, table_of_get? ht]
  constructor
  · rintro ⟨hpos, hlt, free', hfrees', hmem⟩
    rw [hfrees'.unique hfrees] at hmem
    exact (List.mem_append.mp (hcovers.mp ⟨hpos, hlt⟩)).resolve_right hmem
  · intro hr
    obtain ⟨hpos, hlt⟩ := hcovers.mpr (List.mem_append_left _ hr)
    exact ⟨hpos, hlt, free, hfrees,
      fun hmem => (List.nodup_append.mp hdisjoint).2.2 r hr r hmem rfl⟩

/-! ## Histories -/

/-- A session of the running machine without handles: nothing is queued, every number that was
given out is free again, and nothing holds a handle that was not made yet. -/
structure World.Unleased (w : World) : Prop where
  frame : w.machine.HasFrame
  session : ∃ s, w.machine.session = some s ∧ s.releases = [] ∧
    ∀ i c, w.handles.get? i = some c → c.session ≠ s.id
  numbers : ∃ free, w.Numbered [] [] free
  unmade : ∀ h : HandleRef, w.handles.next ≤ h.index → w.holds (.handle h) = false

/-- The queue of the session of the running machine. -/
def World.releases (w : World) : List Int :=
  (w.machine.session.map Session.releases).getD []

/-- The histories of handles: they are made on any values, cloned, dropped and collected in any
order, and notes are looked at any time. Beside the world a history has the leases it made and the
numbers it released. A number is made only while the counter of numbers fits its type. -/
inductive World.Leasing (start : World) : List Lease → List Int → World → Prop where
  | start : Leasing start [] [] start
  | make {made : List Lease} {log : List Int} {w : World} (v : Value)
      (run : Leasing start made log w) (hv : v.isNil = false) (hlive : w.isLive v = true)
      (hroom : (keepHandle v w).2.machine.nextRef ≤ IntegerKind.i32.hi) :
      Leasing start (made ++ [w.newLease v]) log (keepHandle v w).2
  | clone {made : List Lease} {log : List Int} {w : World} {l : Lease}
      (run : Leasing start made log w) (hl : l ∈ made) (hheld : Ref.handle l.handle ∈ w.held) :
      Leasing start made log (hold [.handle l.handle] w).2
  | drop {made : List Lease} {log : List Int} {w : World} {l : Lease}
      (run : Leasing start made log w) (hl : l ∈ made) (hheld : Ref.handle l.handle ∈ w.held) :
      Leasing start made log (unhold [.handle l.handle] w).2
  | settle {made : List Lease} {log : List Int} {w : World} (run : Leasing start made log w) :
      Leasing start made log w.settle
  | collect {made : List Lease} {log : List Int} {w : World} (run : Leasing start made log w) :
      Leasing start made (log ++ w.settle.releases) (collectReleased w).2

theorem World.Unleased.leased {w : World} {s : Session} (h : w.Unleased)
    (hs : w.machine.session = some s) : w.Leased w.handles.next s.id {} := by
  obtain ⟨s', hs', hreleases, hother⟩ := h.session
  obtain rfl : s = s' := Option.some.inj (hs.symm.trans hs')
  exact {
    frame := h.frame
    session := ⟨s, hs, rfl, hreleases⟩
    numbers := h.numbers
    ledger := ⟨.refl _, List.nodup_nil⟩
    there := fun l hl => absurd hl List.not_mem_nil
    only := fun i c hc hsession => absurd hsession (hother i c hc)
    live := fun l hl => absurd hl List.not_mem_nil
    range := fun l hl => absurd hl List.not_mem_nil
    begins := Nat.le_refl _
    byHand := fun a ha => heldByHand_of_not_holds (h.unmade a ha)
    unmade := fun a ha hin => by
      have hfree := h.unmade a ha
      rw [(heldByHand_of_not_holds hfree).holds_iff.mpr hin] at hfree
      cases hfree
    held := fun l hl => absurd hl List.not_mem_nil
    noted := fun l hl => absurd hl List.not_mem_nil }

/-- Every history keeps the leases in order. -/
theorem World.Leasing.leased {start w : World} {made : List Lease} {log : List Int}
    (run : start.Leasing made log w) (hstart : start.Unleased) :
    ∃ id L, L.made = made ∧ L.released.map Lease.number = log ∧
      w.Leased start.handles.next id L := by
  obtain ⟨s, hs, -⟩ := hstart.session
  refine ⟨s.id, ?_⟩
  induction run with
  | start => exact ⟨{}, rfl, rfl, hstart.leased hs⟩
  | make v run hv hlive hroom ih =>
    obtain ⟨L, rfl, rfl, h⟩ := ih
    exact ⟨{ L with made := L.made ++ [_], current := L.current ++ [_] }, rfl, rfl,
      h.made hv hlive hroom⟩
  | clone run hl hheld ih =>
    obtain ⟨L, rfl, rfl, h⟩ := ih
    exact ⟨L, rfl, rfl, h.hold hl hheld⟩
  | drop run hl hheld ih =>
    obtain ⟨L, rfl, rfl, h⟩ := ih
    exact ⟨L, rfl, rfl, h.unhold _⟩
  | settle run ih =>
    obtain ⟨L, rfl, rfl, h⟩ := ih
    obtain ⟨L', hmade, hreleased, h', -⟩ := h.settled
    exact ⟨L', hmade, congrArg (List.map Lease.number) hreleased, h'⟩
  | @collect made log w run ih =>
    obtain ⟨L, rfl, rfl, h⟩ := ih
    obtain ⟨L', hmade, -, h', ⟨s', hs', hlog⟩, -, -⟩ := h.collected
    refine ⟨L', hmade, ?_, h'⟩
    unfold releases
    rw [hs']
    exact hlog

/-- What a world owes to the handles that were made: a handle with a clone pushes the value it was
made for; handles have numbers of their own; every lease is current, or waits for its release, or
was released, and only current ones have clones; and after collecting, the numbers in use are those
of the handles with clones. -/
structure World.Honors (w : World) (made : List Lease) (log : List Int) : Prop where
  pushes : ∀ l ∈ made, Ref.handle l.handle ∈ w.held →
    pushHandle l.handle w = ((), { w with machine := w.machine.push l.value }) ∧
      w.isLive l.value = true ∧ w.numberOf l.handle = l.number
  distinct : (made.map Lease.handle).Nodup
  apart : ∀ l ∈ made, ∀ l' ∈ made, Ref.handle l.handle ∈ w.held → Ref.handle l'.handle ∈ w.held →
    l.number = l'.number → l = l'
  once : ∃ current waiting released, made.Perm (current ++ (waiting ++ released)) ∧
    waiting.map Lease.number = w.releases ∧ released.map Lease.number = log ∧
    ∀ l ∈ waiting ++ released, Ref.handle l.handle ∉ w.held
  drained : ∃ released, made.Perm (made.filter (fun l => w.held.contains (.handle l.handle)) ++
    released) ∧ released.map Lease.number = log ++ w.settle.releases
  collected : ∀ r, (collectReleased w).2.InUse r ↔
    ∃ l ∈ made, Ref.handle l.handle ∈ w.held ∧ l.number = r

/-- Handles are valid as long as they have clones, in every history of them. -/
theorem leasing_honors {start w : World} {made : List Lease} {log : List Int}
    (hstart : start.Unleased) (run : start.Leasing made log w) : w.Honors made log := by
  obtain ⟨id, L, rfl, rfl, h⟩ := run.leased hstart
  obtain ⟨s, hs, hid, hqueue⟩ := h.session
  obtain ⟨free, t, ht, hnumbered⟩ := h.numbers
  have hapart {l : Lease} (hl : l ∈ L.current) : l ∉ L.waiting ++ L.released := fun hmem =>
    (List.nodup_append.mp (h.ledger.whole.nodup_iff.mp h.ledger.nodup)).2.2 l hl l hmem rfl
  exact {
    pushes := fun l hl hheld => by
      have hl := h.held l hl hheld
      refine ⟨h.pushHandle hl, h.live l hl, ?_⟩
      unfold World.numberOf
      rw [h.there l hl]
      rfl
    distinct := h.ledger.distinct
    apart := fun l hl l' hl' hheld hheld' hnumber =>
      hnumbered.eq_of_number (h.held l hl hheld) (h.held l' hl' hheld') hnumber
    once := by
      refine ⟨L.current, L.waiting, L.released, h.ledger.whole, ?_, rfl, fun l hl hheld => ?_⟩
      · unfold World.releases
        rw [hs]
        exact hqueue.symm
      · have hmade := h.ledger.whole.mem_iff.mpr (List.mem_append_right _ hl)
        exact hapart (h.held l hmade hheld) hl
    drained := by
      obtain ⟨L', hmade, hwaiting, h', ⟨s', hs', hlog⟩, hheld, hcurrent⟩ := h.collected
      have hwhole := h'.ledger.whole
      rw [hwaiting, hmade] at hwhole
      have hfilter : L'.current.Perm
          (L.made.filter fun l => w.held.contains (.handle l.handle)) := by
        refine (List.perm_ext_iff_of_nodup h'.ledger.current_nodup
          (h.ledger.nodup.filter _)).mpr fun l => ?_
        rw [List.mem_filter, List.contains_iff_mem]
        constructor
        · exact fun hl => ⟨hmade ▸ h'.ledger.mem_made hl, hcurrent l hl⟩
        · exact fun ⟨hl, hin⟩ => h'.held l (hmade.symm ▸ hl) (hheld.symm ▸ hin)
      refine ⟨L'.released, hwhole.trans (hfilter.append_right _), ?_⟩
      unfold World.releases
      rw [hs']
      exact hlog
    collected := fun r => by
      obtain ⟨L', hmade, hwaiting, h', -, hheld, hcurrent⟩ := h.collected
      rw [h'.inUse_iff, hwaiting, List.map_nil, List.append_nil, List.mem_map]
      constructor
      · rintro ⟨l, hl, rfl⟩
        exact ⟨l, hmade ▸ h'.ledger.mem_made hl, hcurrent l hl, rfl⟩
      · rintro ⟨l, hl, hin, rfl⟩
        exact ⟨l, h'.held l (hmade.symm ▸ hl) (hheld.symm ▸ hin), rfl⟩ }

/-- A session with an empty registry table. -/
theorem unleased_of_empty {w : World} {s : Session} (hframe : w.machine.HasFrame)
    (hs : w.machine.session = some s) (hreleases : s.releases = [])
    (htable : w.tables.get? w.machine.registry.index = some {}) (hnext : w.machine.nextRef = 1)
    (hhandles : ∀ i, w.handles.get? i = none)
    (hholds : ∀ h : HandleRef, w.holds (.handle h) = false) : w.Unleased where
  frame := hframe
  session := ⟨s, hs, hreleases, fun i c hc => by rw [hhandles i] at hc; cases hc⟩
  numbers := ⟨[], {}, htable, by
    rw [hnext]
    exact {
      slots := {
        strong := rfl
        field := fun e he => absurd he (fun h => nomatch h)
        free := (by decide : Reference.head .nil ≤ 0)
        nodup := List.nodup_nil
        old := fun r hr => absurd hr List.not_mem_nil
        bare := fun r hr => absurd hr List.not_mem_nil
        fresh := fun r _ e he => absurd he (fun h => nomatch h) }
      positive := by decide
      small := by decide
      nodup := List.nodup_nil
      covers := fun r => by
        simp only [List.map_nil, List.append_nil, List.not_mem_nil, iff_false]
        omega
      stored := fun l hl => absurd hl List.not_mem_nil }⟩
  unmade := fun h _ => hholds h

/-- A number that was released is given out again, for another value. -/
theorem leasing_honors_reused_number :
    ∃ (start w : World) (made : List Lease) (log : List Int), start.Unleased ∧
      start.Leasing made log w ∧ made.map Lease.number = [1, 1] ∧ log = [1] ∧
      w.Honors made log := by
  let start : World := {
    tables := ⟨#[some {}, some {}, some {}]⟩
    machine := {
      id := 0, registry := ⟨0⟩, globals := ⟨1⟩
      session := some { id := 0, options := {}, adapters := .build, objects := ⟨2⟩ } } }
  have hstart : start.Unleased := by
    refine unleased_of_empty (Nat.le_refl 0) rfl rfl rfl rfl (fun _ => rfl) fun h => ?_
    rw [Bool.eq_false_iff, ne_eq, World.holds_handle_iff]
    rintro (hin | hin | hin | ⟨c, hc⟩)
    · exact absurd hin List.not_mem_nil
    · exact absurd hin List.not_mem_nil
    · exact absurd hin List.not_mem_nil
    · cases c with
      | table t => exact World.handle_not_mem_table _ t h hc
      | _ => exact absurd hc List.not_mem_nil
  have run₀ : start.Leasing [] [] start := .start
  have run₁ := run₀.make (.text "a") rfl rfl (by decide +kernel)
  have run₂ := run₁.clone List.mem_cons_self (by decide +kernel)
  have run₃ := run₂.drop List.mem_cons_self (by decide +kernel)
  have run₄ := run₃.drop List.mem_cons_self (by decide +kernel)
  have run₅ := run₄.collect
  have run₆ := run₅.make (.boolean true) rfl rfl (by decide +kernel)
  exact ⟨start, _, _, _, hstart, run₆, by decide +kernel, by decide +kernel,
    leasing_honors hstart run₆⟩

end ScriptBridge
