import ScriptBridge.Bridge.Session
import ScriptBridge.Proofs.Dictionary
import ScriptBridge.Proofs.Memory.Holding
import ScriptBridge.Script.Body

/-!
# Subscriptions of scripts

A handler that a script adds to an event joins one list of the host, and the session remembers it
beside the event object it was added through, so that closing the session can take it out of that
list. What is remembered is found by the handler alone.

* As long as a handler is only removed from the event it was added to, what is remembered are
  exactly the handlers of scripts that are in some list, and closing leaves none of them behind.
* A handler that is removed from another event is forgotten while it is still in its list, and
  closing leaves it there.
-/

namespace ScriptBridge

/-! ## Lists of handlers -/

/-- Where an event keeps its handlers: in the bag of its target, or in a cell of its own. -/
inductive HandlerPlace where
  | bag (target : ObjectRef) (event : String)
  | cell (shared : CellRef)
deriving DecidableEq

/-- The place behind the hook of an event. -/
def HandlerPlace.behind (event : String) (shared : CellRef) : Option ObjectRef → HandlerPlace
  | some target => .bag target event
  | none => .cell shared

namespace World

def bagOf? (w : World) (o : ObjectRef) : Option Bag := (w.objects.get? o.index).bind (·.bag?)

/-- The handlers at a place; none if the place is gone. -/
def handlersAt (w : World) : HandlerPlace → List ObjectRef
  | .bag o event => ((w.bagOf? o).bind (·.handlers.get? event)).getD []
  | .cell c =>
    match w.cells.get? c.index with
    | some (.handlers hs) => hs
    | _ => []

/-- The place is there, with or without handlers. -/
def HasPlace (w : World) : HandlerPlace → Prop
  | .bag o _ => ∃ b, w.bagOf? o = some b
  | .cell c => ∃ cell, w.cells.get? c.index = some cell

/-- The subscriptions the session remembers. -/
def tracked (w : World) : List (ObjectRef × ObjectRef) :=
  (w.machine.session.map Session.events).getD []

/-- An object stands for an event that adds handlers to a place and removes them there. -/
def Fronts (w : World) (b : ObjectRef) (p : HandlerPlace) : Prop :=
  ∃ cls target event name shared, w.objects.get? b.index = some ⟨cls, .event target event⟩ ∧
    event.add = .handlers name shared ∧ event.remove = .handlers name shared ∧
    p = .behind name shared target

variable {w w' w₁ w₂ : World} {b : ObjectRef} {p q : HandlerPlace}

theorem Fronts.unique (hp : w.Fronts b p) (hq : w.Fronts b q) : p = q := by
  obtain ⟨cls, target, event, name, shared, hcell, hadd, -, rfl⟩ := hp
  obtain ⟨cls', target', event', name', shared', hcell', hadd', -, rfl⟩ := hq
  rw [hcell] at hcell'
  cases hcell'
  rw [hadd] at hadd'
  cases hadd'
  rfl

theorem Fronts.of_cell (h : w.Fronts b p)
    (hcell : w'.objects.get? b.index = w.objects.get? b.index) : w'.Fronts b p := by
  obtain ⟨cls, target, event, name, shared, hget, hhooks⟩ := h
  exact ⟨cls, target, event, name, shared, hcell.trans hget, hhooks⟩

theorem handlersAt_congr (hobjects : w'.objects = w.objects) (hcells : w'.cells = w.cells)
    (p : HandlerPlace) : w'.handlersAt p = w.handlersAt p := by
  unfold handlersAt bagOf?
  rw [hobjects, hcells]

/-! ## Changing one list -/

/-- The handlers at one place were replaced, and nothing else about subscriptions changed. -/
structure Relists (w : World) (p : HandlerPlace) (hs : List ObjectRef) (w' : World) : Prop where
  machine : w'.machine = w.machine
  held : w'.held = w.held
  next : w'.objects.next = w.objects.next
  fronts : ∀ b q, w.Fronts b q → w'.Fronts b q
  place : w'.handlersAt p = hs
  elsewhere : ∀ q, q ≠ p → w'.handlersAt q = w.handlersAt q

theorem Relists.of_same {hs : List ObjectRef} (hmachine : w'.machine = w.machine)
    (hheld : w'.held = w.held) (hobjects : w'.objects = w.objects) (hcells : w'.cells = w.cells)
    (hp : w.handlersAt p = hs) : w.Relists p hs w' where
  machine := hmachine
  held := hheld
  next := congrArg Store.next hobjects
  fronts _ _ h := h.of_cell (by rw [hobjects])
  place := (handlersAt_congr hobjects hcells p).trans hp
  elsewhere q _ := handlersAt_congr hobjects hcells q

/-- Noting references that were let go of changes no list. -/
theorem Relists.discarded {hs : List ObjectRef} (h : w.Relists p hs w') (refs : List Ref)
    (during : Option TableRef) : w.Relists p hs (discard refs during w').2 := by
  obtain ⟨dropped, hdiscard⟩ : ∃ dropped,
      discard refs during w' = ((), { w' with dropped := dropped }) := by
    unfold discard
    split
    · exact ⟨w'.dropped, rfl⟩
    · exact ⟨_, rfl⟩
  rw [hdiscard]
  exact ⟨h.machine, h.held, h.next, fun b q hb => (h.fronts b q hb).of_cell rfl,
    (handlersAt_congr rfl rfl p).trans h.place,
    fun q hq => (handlersAt_congr rfl rfl q).trans (h.elsewhere q hq)⟩

/-- Writing the handlers of an event into the bag of its target. -/
theorem relists_bag {o : ObjectRef} {bag : Bag} (hbag : w.bagOf? o = some bag) (event : String)
    (hs : List ObjectRef) : w.Relists (.bag o event) hs { w with
      objects := w.objects.modify o.index
        ({ · with data := .bag { bag with handlers := bag.handlers.insert event hs } }) } := by
  obtain ⟨cell, hcell, hdata⟩ := Option.bind_eq_some_iff.mp hbag
  have hsame {o' : ObjectRef} (hne : o ≠ o') : (w.objects.modify o.index
      ({ · with data := .bag { bag with handlers := bag.handlers.insert event hs } })).get?
        o'.index = w.objects.get? o'.index :=
    Store.get?_modify_of_ne _ _ fun hi => hne (ObjectRef.ext hi)
  have hnew : (w.objects.modify o.index
      ({ · with data := .bag { bag with handlers := bag.handlers.insert event hs } })).get?
        o.index =
      some ⟨cell.cls, .bag { bag with handlers := bag.handlers.insert event hs }⟩ := by
    rw [Store.get?_modify, if_pos rfl, hcell]
    rfl
  refine ⟨rfl, rfl, Store.next_modify _ _ _, fun b q hb => ?_, ?_, fun q hq => ?_⟩
  · refine hb.of_cell (hsame fun ho => ?_)
    obtain ⟨cls, target, event', name, shared, hget, -⟩ := hb
    rw [ho, hget] at hcell
    cases hcell
    cases hdata
  · unfold handlersAt bagOf?
    dsimp only
    rw [hnew]
    show ((bag.handlers.insert event hs).get? event).getD [] = hs
    rw [Dictionary.get?_insert, if_pos rfl]
    rfl
  · cases q with
    | cell c => rfl
    | bag o' event' =>
      by_cases ho : o = o'
      · subst ho
        unfold handlersAt bagOf?
        dsimp only
        rw [hnew, hcell]
        show ((bag.handlers.insert event hs).get? event').getD [] =
          ((cell.bag?).bind (·.handlers.get? event')).getD []
        rw [Dictionary.get?_insert, if_neg fun he => hq (by rw [he]), hdata]
        rfl
      · unfold handlersAt bagOf?
        dsimp only
        rw [hsame ho]

/-- Writing the handlers of an event into its cell; if the cell is gone, nothing is written. -/
theorem relists_cell (w : World) (c : CellRef) {hs : List ObjectRef}
    (hcell : w.HasPlace (.cell c) ∨ hs = []) : w.Relists (.cell c) hs { w with
      cells := w.cells.modify c.index fun _ => .handlers hs } := by
  refine ⟨rfl, rfl, rfl, fun b q hb => hb.of_cell rfl, ?_, fun q hq => ?_⟩
  · unfold handlersAt
    dsimp only
    rw [Store.get?_modify, if_pos rfl]
    obtain ⟨cell, hcell⟩ | rfl := hcell
    · rw [hcell]
      rfl
    · cases w.cells.get? c.index <;> rfl
  · cases q with
    | bag o event => rfl
    | cell c' =>
      have hne : c.index ≠ c'.index := fun hi =>
        hq (congrArg HandlerPlace.cell (congrArg CellRef.mk hi.symm))
      unfold handlersAt
      dsimp only
      rw [Store.get?_modify_of_ne _ _ hne]

end World

/-! ## Hooks -/

section

variable {name event : String} {shared : CellRef} {target : Option ObjectRef} {w : World}

theorem change_of_bag {o : ObjectRef} {bag : Bag} (hbag : w.bagOf? o = some bag)
    (f : List ObjectRef → List ObjectRef) :
    (EventHook.handlers event shared).change name (some o) f w = .ok () { w with
      objects := w.objects.modify o.index ({ · with data := .bag { bag with
        handlers := bag.handlers.insert event (f (w.handlersAt (.bag o event))) } }) } := by
  have hread : readBag? (some o) w = (some bag, w) := congrArg (·, w) hbag
  have hlist : w.handlersAt (.bag o event) = (bag.handlers.get? event).getD [] := by
    unfold World.handlersAt
    dsimp only
    rw [hbag]
    rfl
  rw [hlist]
  exact bind_of_ok (lift_of_eq hread)

theorem change_of_noBag (name event : String) (shared : CellRef) {o : ObjectRef}
    (hbag : w.bagOf? o = none) (f : List ObjectRef → List ObjectRef) :
    (EventHook.handlers event shared).change name (some o) f w =
      throwNamed ("no target for " ++ name) w := by
  have hread : readBag? (some o) w = (none, w) := congrArg (·, w) hbag
  exact bind_of_ok (lift_of_eq hread)

theorem change_of_cell (f : List ObjectRef → List ObjectRef) :
    (EventHook.handlers event shared).change name none f w =
      .ok () (setCell shared (.handlers (f (w.handlersAt (.cell shared)))) w).2 := by
  have hread : readCell shared w = ((w.cells.get? shared.index).getD (.value .null), w) := rfl
  refine (bind_of_ok (lift_of_eq hread)).trans ?_
  unfold World.handlersAt
  dsimp only
  cases w.cells.get? shared.index with
  | none => rfl
  | some cell => cases cell <;> rfl

/-- Making a named exception changes no list. -/
theorem World.relists_namedException (w : World) (p : HandlerPlace) (exception : String) :
    w.Relists p (w.handlersAt p) (namedException exception w).2 := by
  unfold namedException
  rw [bind_of_eq (show (get : Action World) w = (w, w) from rfl)]
  cases w.named.get? exception <;> exact .of_same rfl rfl rfl rfl rfl

/-- A hook that finds its place succeeds. -/
theorem change_ok (name : String) (hplace : w.HasPlace (.behind event shared target))
    (f : List ObjectRef → List ObjectRef) :
    ∃ w', (EventHook.handlers event shared).change name target f w = .ok () w' := by
  cases target with
  | some o =>
    obtain ⟨bag, hbag⟩ := hplace
    exact ⟨_, change_of_bag hbag f⟩
  | none => exact ⟨_, change_of_cell f⟩

/-- A hook replaces the handlers at its place. If the place is gone, there is no handler to take
out either. -/
theorem change_relists (name : String) {f : List ObjectRef → List ObjectRef}
    (hplace : w.HasPlace (.behind event shared target) ∨ f [] = []) :
    w.Relists (.behind event shared target) (f (w.handlersAt (.behind event shared target)))
      (worldAfter ((EventHook.handlers event shared).change name target f w)) := by
  cases target with
  | some o =>
    show w.Relists (.bag o event) (f (w.handlersAt (.bag o event))) _
    cases hbag : w.bagOf? o with
    | some bag =>
      rw [change_of_bag hbag f]
      exact World.relists_bag hbag event _
    | none =>
      have hnone : w.handlersAt (.bag o event) = [] := by
        unfold World.handlersAt
        dsimp only
        rw [hbag]
        rfl
      obtain ⟨bag, hplace⟩ | hf := hplace
      · rw [hbag] at hplace
        cases hplace
      · have hsame : f (w.handlersAt (.bag o event)) = w.handlersAt (.bag o event) := by
          rw [hnone, hf]
        rw [change_of_noBag name event shared hbag f, hsame]
        exact w.relists_namedException _ _
  | none =>
    show w.Relists (.cell shared) (f (w.handlersAt (.cell shared))) _
    rw [change_of_cell f]
    have hhere : w.HasPlace (.cell shared) ∨ f (w.handlersAt (.cell shared)) = [] := by
      cases hcell : w.cells.get? shared.index with
      | some cell => exact .inl ⟨cell, hcell⟩
      | none =>
        refine hplace.imp id fun hf => ?_
        unfold World.handlersAt
        dsimp only
        rw [hcell]
        exact hf
    exact (w.relists_cell shared hhere).discarded _ _

end

/-- Unsubscribing takes a handler out of one list. -/
theorem unsubscribe_relists {w : World} {event : Event} {name : String} {shared : CellRef}
    (hremove : event.remove = .handlers name shared) (target : Option ObjectRef)
    (handler : ObjectRef) :
    w.Relists (.behind name shared target)
      ((w.handlersAt (.behind name shared target)).filter (· != handler))
      (worldAfter (event.unsubscribe target handler w)) := by
  have hchange : w.Relists (.behind name shared target)
      ((w.handlersAt (.behind name shared target)).filter (· != handler))
      (worldAfter ((EventHook.handlers name shared).change event.name target
        (·.filter (· != handler)) w)) :=
    change_relists event.name (.inr rfl)
  unfold Event.unsubscribe
  rw [hremove]
  cases hr : (EventHook.handlers name shared).change event.name target
      (·.filter (· != handler)) w with
  | ok _ w₁ =>
    rw [hr] at hchange
    rw [bind_of_ok hr]
    exact hchange.discarded [.object handler] none
  | error e w₁ =>
    rw [hr] at hchange
    rw [bind_of_error hr]
    exact hchange

/-! ## Reclaiming memory -/

namespace World

variable {w w' w₁ w₂ : World} {b : ObjectRef} {p : HandlerPlace}

/-- The host holds the object, or the session remembers a subscription made through it. -/
def Guards (w : World) (b : ObjectRef) : Prop := .object b ∈ w.held ∨ ∃ h, (b, h) ∈ w.tracked

theorem Guards.holds (h : w.Guards b) : w.holds (.object b) = true := by
  obtain h | ⟨o, h⟩ := h
  · exact holds_of_held h
  · unfold tracked at h
    cases hs : w.machine.session with
    | none => simp [hs] at h
    | some s =>
      rw [hs] at h
      refine holds_of_session hs (List.mem_append_right _ ?_)
      exact List.mem_flatMap.mpr ⟨(b, o), h, List.mem_cons_self⟩

/-- The object of a subscription holds the target of its event. -/
theorem Fronts.holds_target {o : ObjectRef} {event : String} (h : w.Fronts b (.bag o event)) :
    w.holds (.object o) = true := by
  obtain ⟨cls, target, e, name, shared, hcell, -, -, hplace⟩ := h
  cases target with
  | none => cases hplace
  | some o' =>
    cases hplace
    have hmem : Ref.object o ∈ w.cellRefs (.object b) := by
      unfold cellRefs
      dsimp only
      rw [hcell]
      exact List.mem_append_right _ List.mem_cons_self
    exact holds_of_cell hmem

/-- It holds the cell of a shared event. -/
theorem Fronts.holds_shared {c : CellRef} (h : w.Fronts b (.cell c)) :
    w.holds (.cell c) = true := by
  obtain ⟨cls, target, e, name, shared, hcell, hadd, -, hplace⟩ := h
  cases target with
  | some o' => cases hplace
  | none =>
    cases hplace
    have hmem : Ref.cell c ∈ w.cellRefs (.object b) := by
      unfold cellRefs
      dsimp only
      rw [hcell]
      refine List.mem_append_right _ (List.mem_map_of_mem (List.mem_append_left _ ?_))
      rw [hadd]
      exact List.mem_cons_self
    exact holds_of_cell hmem

/-- Every list of handlers is as it was or gone, and the lists behind guarded objects are as they
were. -/
structure Thins (w w' : World) : Prop where
  held : w'.held = w.held
  tracked : w'.tracked = w.tracked
  next : w'.objects.next = w.objects.next
  lists : ∀ p, w'.handlersAt p = w.handlersAt p ∨ w'.handlersAt p = []
  guarded : ∀ b p, w.Guards b → w.Fronts b p → w'.Fronts b p ∧ w'.handlersAt p = w.handlersAt p

theorem Thins.of_same (hheld : w'.held = w.held) (htracked : w'.tracked = w.tracked)
    (hobjects : w'.objects = w.objects) (hcells : w'.cells = w.cells) : w.Thins w' where
  held := hheld
  tracked := htracked
  next := congrArg Store.next hobjects
  lists p := .inl (handlersAt_congr hobjects hcells p)
  guarded _ p _ h := ⟨h.of_cell (by rw [hobjects]), handlersAt_congr hobjects hcells p⟩

theorem Thins.refl (w : World) : w.Thins w := .of_same rfl rfl rfl rfl

theorem Thins.trans (h : w.Thins w₁) (h' : w₁.Thins w₂) : w.Thins w₂ where
  held := h'.held.trans h.held
  tracked := h'.tracked.trans h.tracked
  next := h'.next.trans h.next
  lists p := by
    obtain he' | he' := h'.lists p
    · rw [he']
      exact h.lists p
    · exact .inr he'
  guarded b p hb hp := by
    obtain ⟨hp₁, he⟩ := h.guarded b p hb hp
    have hb₁ : w₁.Guards b := by
      unfold Guards
      rw [h.held, h.tracked]
      exact hb
    obtain ⟨hp₂, he'⟩ := h'.guarded b p hb₁ hp₁
    exact ⟨hp₂, he'.trans he⟩

theorem Thins.mem (h : w.Thins w') {o : ObjectRef} (ho : o ∈ w'.handlersAt p) :
    o ∈ w.handlersAt p := by
  obtain he | he := h.lists p
  · exact he ▸ ho
  · rw [he] at ho
    exact absurd ho List.not_mem_nil

theorem empty_object_thins {o : ObjectRef} (hfree : w.holds (.object o) = false) :
    w.Thins { w with objects := w.objects.erase o.index } := by
  have hsame {o' : ObjectRef} (hne : o' ≠ o) :
      (w.objects.erase o.index).get? o'.index = w.objects.get? o'.index :=
    Store.get?_erase_of_ne _ fun hi => hne (ObjectRef.ext hi.symm)
  have hne {o' : ObjectRef} (h : w.holds (.object o') = true) : o' ≠ o := by
    rintro rfl
    rw [hfree] at h
    cases h
  have hlist {o' : ObjectRef} (event : String) (h : o' ≠ o) :
      { w with objects := w.objects.erase o.index }.handlersAt (.bag o' event) =
        w.handlersAt (.bag o' event) := by
    unfold handlersAt bagOf?
    dsimp only
    rw [hsame h]
  refine ⟨rfl, rfl, Store.next_erase _ _, fun p => ?_, fun b p hb hp => ⟨?_, ?_⟩⟩
  · cases p with
    | cell c => exact .inl rfl
    | bag o' event =>
      by_cases h : o' = o
      · refine .inr ?_
        unfold handlersAt bagOf?
        dsimp only
        rw [h, Store.get?_erase, if_pos rfl]
        rfl
      · exact .inl (hlist event h)
  · exact hp.of_cell (hsame (hne hb.holds))
  · cases p with
    | cell c => rfl
    | bag o' event => exact hlist event (hne hp.holds_target)

theorem empty_cell_thins {c : CellRef} (hfree : w.holds (.cell c) = false) :
    w.Thins { w with cells := w.cells.erase c.index } := by
  have hlist {c' : CellRef} (h : c.index ≠ c'.index) :
      { w with cells := w.cells.erase c.index }.handlersAt (.cell c') =
        w.handlersAt (.cell c') := by
    unfold handlersAt
    dsimp only
    rw [Store.get?_erase_of_ne _ h]
  refine ⟨rfl, rfl, rfl, fun p => ?_, fun b p hb hp => ⟨hp.of_cell rfl, ?_⟩⟩
  · cases p with
    | bag o event => exact .inl rfl
    | cell c' =>
      by_cases h : c.index = c'.index
      · refine .inr ?_
        unfold handlersAt
        dsimp only
        rw [Store.get?_erase, if_pos h]
      · exact .inl (hlist h)
  · cases p with
    | bag o event => rfl
    | cell c' =>
      refine hlist fun hi => ?_
      obtain rfl : c = c' := congrArg CellRef.mk hi
      have hholds := hp.holds_shared
      rw [hfree] at hholds
      cases hholds

/-- Emptying a cell that nothing holds. -/
theorem empty_thins (d : Dropped) (hfree : w.holds d.ref = false) :
    w.Thins (w.empty d).1 := by
  obtain ⟨r, during⟩ := d
  cases r with
  | object o => exact empty_object_thins hfree
  | cell c => exact empty_cell_thins hfree
  | handle h =>
    cases hcell : w.handles.get? h.index with
    | none =>
      rw [empty_handle_none during hcell]
      exact .refl w
    | some cell =>
      rw [empty_handle_some during hcell]
      refine .of_same rfl ?_ rfl rfl
      show (((w.machine.session.map fun s => if s.id == cell.session then
        { s with releases := s.releases ++ [cell.reference] } else s).map Session.events).getD []) =
          _
      rw [Option.map_map]
      unfold tracked
      congr 2
      funext s
      dsimp only [Function.comp_apply]
      split <;> rfl
  | userdata u =>
    unfold empty
    dsimp only
    cases w.userdata.get? u.index with
    | none => exact .refl w
    | some cell =>
      dsimp only
      split
      · unfold modifyMachineOf
        split <;> exact .of_same rfl rfl rfl rfl
      · exact .of_same rfl rfl rfl rfl
  | table t => exact .of_same rfl rfl rfl rfl
  | function f => exact .of_same rfl rfl rfl rfl
  | dispatcher d => exact .of_same rfl rfl rfl rfl

/-- Reclaiming memory keeps the lists behind the objects of remembered subscriptions. -/
theorem settle_thins (w : World) : w.Thins w.settle := by
  refine settle_keeps (P := w.Thins) (fun w' d rest _ hw _ => ?_)
    (fun w' d rest _ hw hfree => ?_) (.refl w)
  · exact hw.trans (.of_same rfl rfl rfl rfl)
  · have hrest : w'.Thins { w' with dropped := rest } := .of_same rfl rfl rfl rfl
    have hempty : Thins _ ({ w' with dropped := rest }.empty d).1 := empty_thins d hfree
    exact (hw.trans hrest).trans (hempty.trans (.of_same rfl rfl rfl rfl))

theorem release_thins (w : World) (refs : List Ref) (during : Option TableRef) :
    w.Thins (release refs during w).2 := by
  have hdiscard : w.Thins (discard refs during w).2 := by
    unfold discard
    split <;> exact .of_same rfl rfl rfl rfl
  exact hdiscard.trans (settle_thins _)

end World

/-! ## Closing a session -/

section

variable {w w' : World} {handlers : List ObjectRef}

/-- Pending subscriptions as they are held while they are removed. -/
def pendingRefs (pending : List (ObjectRef × ObjectRef)) : List Ref :=
  pending.flatMap fun (b, h) => [.object b, .object h]

/-- Every handler that is still in a list is pending, with the object it was added through; the
host holds what is pending. -/
structure World.Closing (w : World) (handlers : List ObjectRef)
    (pending : List (ObjectRef × ObjectRef)) (others : List Ref) : Prop where
  held : w.held = pendingRefs pending ++ others
  fronts : ∀ b h, (b, h) ∈ pending → ∃ p, w.Fronts b p
  listed : ∀ h ∈ handlers, ∀ p, h ∈ w.handlersAt p → ∃ b, (b, h) ∈ pending ∧ w.Fronts b p

theorem removeSubscription_relists {b : ObjectRef} {p : HandlerPlace} (hb : w.Fronts b p)
    (h : ObjectRef) : w.Relists p ((w.handlersAt p).filter (· != h))
      (removeSubscription b h w).2 := by
  obtain ⟨cls, target, event, name, shared, hcell, -, hremove, rfl⟩ := hb
  have hread : readObject? b w = (some ⟨cls, .event target event⟩, w) := congrArg (·, w) hcell
  have hunsubscribe := unsubscribe_relists (w := w) hremove target h
  unfold removeSubscription
  rw [bind_of_eq hread]
  dsimp only
  cases hr : event.unsubscribe target h w with
  | ok _ w₁ =>
    rw [bind_of_eq (attempt_of_ok hr)]
    rw [hr] at hunsubscribe
    exact hunsubscribe
  | error e w₁ =>
    rw [bind_of_eq (attempt_of_error hr)]
    rw [hr] at hunsubscribe
    exact hunsubscribe

/-- Letting go of the first pending subscription. -/
theorem unhold_pending {b h : ObjectRef} {rest : List (ObjectRef × ObjectRef)} {others : List Ref}
    (hheld : w.held = pendingRefs ((b, h) :: rest) ++ others) :
    ∃ dropped, unhold [.object h, .object b] w = ((), { w with
      held := pendingRefs rest ++ others
      dropped := dropped }) := by
  have herase : ([.object h, .object b] : List Ref).foldl List.erase w.held =
      pendingRefs rest ++ others := by
    rw [hheld]
    show ((Ref.object b :: .object h :: (pendingRefs rest ++ others)).erase (.object h)).erase
      (.object b) = _
    by_cases hbh : b = h
    · subst hbh
      rw [List.erase_cons_head, List.erase_cons_head]
    · rw [List.erase_cons_tail (by simpa using hbh), List.erase_cons_head, List.erase_cons_head]
  refine ⟨w.dropped ++ [⟨.object h, none⟩, ⟨.object b, none⟩], ?_⟩
  rw [← herase]
  rfl

/-- One pending subscription is removed, and let go of. -/
theorem World.Closing.step {b h : ObjectRef} {rest : List (ObjectRef × ObjectRef)}
    {others : List Ref} (hw : w.Closing handlers ((b, h) :: rest) others) :
    ((unhold [.object h, .object b] (removeSubscription b h w).2).2.settle).Closing handlers rest
      others := by
  obtain ⟨p, hb⟩ := hw.fronts b h List.mem_cons_self
  have hremoved := removeSubscription_relists hb h
  generalize (removeSubscription b h w).2 = w₁ at hremoved ⊢
  obtain ⟨dropped, hunhold⟩ := unhold_pending (hremoved.held.trans hw.held)
  rw [hunhold]
  have hthins := settle_thins { w₁ with held := pendingRefs rest ++ others, dropped := dropped }
  have hfronts {b' : ObjectRef} {q : HandlerPlace} (hmem : ∃ h', (b', h') ∈ rest)
      (hq : w.Fronts b' q) :
      (World.settle { w₁ with held := pendingRefs rest ++ others, dropped := dropped }).Fronts
        b' q := by
    obtain ⟨h', hmem⟩ := hmem
    refine (hthins.guarded b' q (.inl (List.mem_append_left _ ?_))
      ((hremoved.fronts b' q hq).of_cell rfl)).1
    exact List.mem_flatMap.mpr ⟨(b', h'), hmem, List.mem_cons_self⟩
  refine ⟨hthins.held, fun b' h' hmem => ?_, fun h' hh' q hq => ?_⟩
  · obtain ⟨q, hq⟩ := hw.fronts b' h' (List.mem_cons_of_mem _ hmem)
    exact ⟨q, hfronts ⟨h', hmem⟩ hq⟩
  · have hq : h' ∈ w₁.handlersAt q := by
      have hq := hthins.mem hq
      rwa [World.handlersAt_congr rfl rfl] at hq
    by_cases hqp : q = p
    · subst hqp
      rw [hremoved.place, List.mem_filter] at hq
      obtain ⟨b', hmem, hb'⟩ := hw.listed h' hh' q hq.1
      obtain hhead | hmem := List.mem_cons.mp hmem
      · cases hhead
        exact absurd hq.2 (by simp)
      · exact ⟨b', hmem, hfronts ⟨h', hmem⟩ hb'⟩
    · rw [hremoved.elsewhere q hqp] at hq
      obtain ⟨b', hmem, hb'⟩ := hw.listed h' hh' q hq
      obtain hhead | hmem := List.mem_cons.mp hmem
      · cases hhead
        exact absurd (hb'.unique hb) hqp
      · exact ⟨b', hmem, hfronts ⟨h', hmem⟩ hb'⟩

/-- After all pending subscriptions were removed no handler is left in any list. -/
theorem removeSubscriptions_unlists (pending : List (ObjectRef × ObjectRef)) {others : List Ref}
    (hw : w.Closing handlers pending others) :
    ∀ h ∈ handlers, ∀ p, h ∉ (removeSubscriptions pending w).2.handlersAt p := by
  induction pending generalizing w with
  | nil =>
    intro h hh p hp
    obtain ⟨b, hmem, -⟩ := hw.listed h hh p hp
    exact absurd hmem List.not_mem_nil
  | cons e rest ih => exact ih hw.step

/-- The world in which the subscriptions of a session are about to be removed. -/
def World.holdingTracked (w : World) : World :=
  { w with
    held := pendingRefs w.tracked ++ w.held
    machine := { w.machine with session := w.machine.session.map ({ · with events := [] }) } }

/-- Letting go of a machine puts no handler into a list. -/
theorem leaveMachine_lists (id : Nat) (w : World) {o : ObjectRef} {p : HandlerPlace}
    (h : o ∈ (leaveMachine id w).2.handlersAt p) : o ∈ w.handlersAt p := by
  have hresume : (resume id w).2.objects = w.objects ∧ (resume id w).2.cells = w.cells := by
    unfold resume
    dsimp only [modify, modifyGet, MonadStateOf.modifyGet, StateT.modifyGet]
    cases w.parked.find? (·.id == id) <;> exact ⟨rfl, rfl⟩
  have hlist := (World.release_thins _ _ _).mem h
  exact (congrArg (o ∈ ·) (World.handlersAt_congr hresume.1 hresume.2 p)).mp hlist

theorem readSession_events (w : World) : (readSession w).1.events = w.tracked := by
  show (w.machine.session.getD default).events = (w.machine.session.map Session.events).getD []
  cases w.machine.session <;> rfl

/-- Giving up the machine of a session, whose subscriptions were removed. -/
def giveUpMachine : Action Unit := do
  let gone := (← readMachine).id
  let m ← newMachine {}
  modify fun w =>
    { w with
      parked := m :: w.parked
      sessions := w.sessions.map fun id => if id == gone then m.id else id }
  leaveMachine m.id

/-- Closing from the removal of subscriptions on. -/
def removeTracked : Action Unit := do
  let events := (← readSession).events
  hold (pendingRefs events)
  modifySession ({ · with events := [] })
  removeSubscriptions events
  giveUpMachine

theorem giveUpMachine_lists (w : World) {o : ObjectRef} {p : HandlerPlace}
    (h : o ∈ (giveUpMachine w).2.handlersAt p) : o ∈ w.handlersAt p := by
  have hm : newMachine {} w = ((newMachine {} w).1, (newMachine {} w).2) := rfl
  have hobjects : (newMachine {} w).2.objects = w.objects := rfl
  have hcells : (newMachine {} w).2.cells = w.cells := rfl
  unfold giveUpMachine at h
  rw [bind_of_eq (show readMachine w = (w.machine, w) from rfl), bind_of_eq hm] at h
  generalize (newMachine {} w).2 = w₁ at h hobjects hcells
  have hlist := leaveMachine_lists _ _ h
  rwa [← World.handlersAt_congr hobjects hcells p]

theorem removeTracked_eq (w : World) : removeTracked w =
    giveUpMachine (removeSubscriptions w.tracked w.holdingTracked).2 := by
  unfold World.holdingTracked
  rw [← readSession_events]
  rfl

/-- Closing a session removes what it remembers when the host has let go of its own. -/
theorem closeSession_lists (w : World) : ∃ w₁, w.Thins w₁ ∧
    ∀ p, ∀ o ∈ (closeSession w).2.handlersAt p,
      o ∈ (removeSubscriptions w₁.tracked w₁.holdingTracked).2.handlersAt p := by
  have hclear : w.Thins { w with kept := [], wrappers := [] } := .of_same rfl rfl rfl rfl
  have hrelease := hclear.trans (World.release_thins _ (w.kept.flatMap (·.2.refs) ++
    w.wrappers.map (fun wrapper => Ref.dispatcher wrapper.2)) none)
  refine ⟨_, hrelease, fun p o ho => ?_⟩
  have ho : o ∈ (removeTracked _).2.handlersAt p := ho
  rw [removeTracked_eq] at ho
  exact giveUpMachine_lists _ ho

end

/-! ## What a session remembers -/

/-- What the session remembers are exactly the handlers of scripts that are in some list, each
with an object that stands for the event of that list. -/
structure World.Subscribed (w : World) (handlers : List ObjectRef) : Prop where
  tracked : ∀ b h, (b, h) ∈ w.tracked → h ∈ handlers ∧ ∃ p, w.Fronts b p ∧ h ∈ w.handlersAt p
  listed : ∀ h ∈ handlers, ∀ p, h ∈ w.handlersAt p → ∃ b, (b, h) ∈ w.tracked ∧ w.Fronts b p
  made : ∀ h ∈ handlers, h.index < w.objects.next
  listedMade : ∀ p, ∀ h ∈ w.handlersAt p, h.index < w.objects.next

/-- A step beside the subscriptions: no list gains a handler, and what is remembered, the objects
it was added through, and the lists behind them are as they were. -/
structure World.SparesSubscriptions (w w' : World) : Prop where
  tracked : w'.tracked = w.tracked
  next : w.objects.next ≤ w'.objects.next
  lists : ∀ p, ∀ h ∈ w'.handlersAt p, h ∈ w.handlersAt p
  fronts : ∀ b h p, (b, h) ∈ w.tracked → w.Fronts b p →
    w'.Fronts b p ∧ w'.handlersAt p = w.handlersAt p

namespace World

variable {w w' w₁ w₂ : World} {handlers : List ObjectRef} {b : ObjectRef} {p : HandlerPlace}

theorem Subscribed.exact (hw : w.Subscribed handlers) (o : ObjectRef) :
    (∃ b, (b, o) ∈ w.tracked) ↔ o ∈ handlers ∧ ∃ p, o ∈ w.handlersAt p := by
  constructor
  · rintro ⟨b, hmem⟩
    obtain ⟨ho, p, -, hp⟩ := hw.tracked b o hmem
    exact ⟨ho, p, hp⟩
  · rintro ⟨ho, p, hp⟩
    obtain ⟨b, hmem, -⟩ := hw.listed o ho p hp
    exact ⟨b, hmem⟩

/-- Closing the session leaves none of the handlers behind. -/
theorem Subscribed.closed (hw : w.Subscribed handlers) :
    ∀ o ∈ handlers, ∀ p, o ∉ (closeSession w).2.handlersAt p := by
  obtain ⟨w₁, hthins, hlists⟩ := closeSession_lists w
  have hguards {b h : ObjectRef} (hmem : (b, h) ∈ w₁.tracked) : w.Guards b :=
    .inr ⟨h, hthins.tracked ▸ hmem⟩
  have hclosing : w₁.holdingTracked.Closing handlers w₁.tracked w₁.held := by
    refine ⟨rfl, fun b h hmem => ?_, fun h hh p hp => ?_⟩
    · obtain ⟨-, p, hb, -⟩ := hw.tracked b h (hthins.tracked ▸ hmem)
      exact ⟨p, (hthins.guarded b p (hguards hmem) hb).1.of_cell rfl⟩
    · have hp : h ∈ w₁.handlersAt p := (congrArg (h ∈ ·) (handlersAt_congr rfl rfl p)).mp hp
      obtain ⟨b, hmem, hb⟩ := hw.listed h hh p (hthins.mem hp)
      rw [← hthins.tracked] at hmem
      exact ⟨b, hmem, (hthins.guarded b p (hguards hmem) hb).1.of_cell rfl⟩
  exact fun o ho p hp => removeSubscriptions_unlists _ hclosing o ho p (hlists p o hp)

theorem SparesSubscriptions.of_same (htracked : w'.tracked = w.tracked)
    (hobjects : w'.objects = w.objects) (hcells : w'.cells = w.cells) :
    w.SparesSubscriptions w' where
  tracked := htracked
  next := Nat.le_of_eq (congrArg Store.next hobjects.symm)
  lists p _ h := handlersAt_congr hobjects hcells p ▸ h
  fronts _ _ p _ hb := ⟨hb.of_cell (by rw [hobjects]), handlersAt_congr hobjects hcells p⟩

theorem Relists.spares (h : w.Relists p (w.handlersAt p) w') : w.SparesSubscriptions w' := by
  have hlist (q : HandlerPlace) : w'.handlersAt q = w.handlersAt q := by
    by_cases hq : q = p
    · rw [hq, h.place]
    · exact h.elsewhere q hq
  refine ⟨?_, Nat.le_of_eq h.next.symm, fun q o ho => hlist q ▸ ho,
    fun b _ q _ hb => ⟨h.fronts b q hb, hlist q⟩⟩
  unfold World.tracked
  rw [h.machine]

theorem Thins.spares (h : w.Thins w') : w.SparesSubscriptions w' where
  tracked := h.tracked
  next := Nat.le_of_eq h.next.symm
  lists _ _ ho := h.mem ho
  fronts b o p hmem hb := h.guarded b p (.inr ⟨o, hmem⟩) hb

theorem Subscribed.spared (hw : w.Subscribed handlers) (h : w.SparesSubscriptions w') :
    w'.Subscribed handlers where
  tracked b o hmem := by
    rw [h.tracked] at hmem
    obtain ⟨ho, p, hb, hp⟩ := hw.tracked b o hmem
    obtain ⟨hb', hlist⟩ := h.fronts b o p hmem hb
    exact ⟨ho, p, hb', hlist ▸ hp⟩
  listed o ho p hp := by
    obtain ⟨b, hmem, hb⟩ := hw.listed o ho p (h.lists p o hp)
    exact ⟨b, h.tracked ▸ hmem, (h.fronts b o p hmem hb).1⟩
  made o ho := Nat.lt_of_lt_of_le (hw.made o ho) h.next
  listedMade p o ho := Nat.lt_of_lt_of_le (hw.listedMade p o (h.lists p o ho)) h.next

/-! ### A new object that is no bag -/

theorem bagOf?_newObject (w : World) (cls : Class) (data : ObjectData)
    (hdata : HostObject.bag? ⟨cls, data⟩ = none) (o : ObjectRef) :
    { w with objects := w.objects.add ⟨cls, data⟩ }.bagOf? o = w.bagOf? o := by
  unfold bagOf?
  dsimp only
  rw [Store.get?_add]
  split
  · rename_i ho
    rw [ho, Store.get?_eq_none _ (Nat.le_refl _)]
    exact hdata
  · rfl

theorem HasPlace.newObject (h : w.HasPlace p) (cls : Class) (data : ObjectData)
    (hdata : HostObject.bag? ⟨cls, data⟩ = none) :
    { w with objects := w.objects.add ⟨cls, data⟩ }.HasPlace p := by
  cases p with
  | cell c => exact h
  | bag o event =>
    obtain ⟨bag, hbag⟩ := h
    exact ⟨bag, (w.bagOf?_newObject cls data hdata o).trans hbag⟩

theorem Fronts.newObject (h : w.Fronts b p) (cls : Class) (data : ObjectData) :
    { w with objects := w.objects.add ⟨cls, data⟩ }.Fronts b p := by
  refine h.of_cell ?_
  obtain ⟨_, _, _, _, _, hcell, -⟩ := h
  exact Store.get?_add_of_lt _ _ (Store.lt_next _ hcell)

theorem newObject_spares (w : World) (cls : Class) (data : ObjectData)
    (hdata : HostObject.bag? ⟨cls, data⟩ = none) :
    w.SparesSubscriptions { w with objects := w.objects.add ⟨cls, data⟩ } := by
  have hlist (p : HandlerPlace) :
      { w with objects := w.objects.add ⟨cls, data⟩ }.handlersAt p = w.handlersAt p := by
    cases p with
    | cell c => rfl
    | bag o event =>
      unfold handlersAt
      dsimp only
      rw [w.bagOf?_newObject cls data hdata o]
  refine ⟨rfl, ?_, fun p o ho => hlist p ▸ ho, fun b o p _ hb => ⟨hb.newObject cls data, hlist p⟩⟩
  show w.objects.next ≤ (w.objects.add _).next
  rw [Store.next_add]
  exact Nat.le_succ _

/-! ### Handlers that come and go -/

/-- A handler that was just made joins a list and is remembered. -/
theorem Subscribed.add {handler : ObjectRef} (hw : w.Subscribed handlers)
    (hspares : w.SparesSubscriptions w₁) (hfresh : handler.index = w.objects.next)
    (hnext : w.objects.next < w₁.objects.next) (hb : w₁.Fronts b p)
    (hrelist : w₁.Relists p (w₁.handlersAt p ++ [handler]) w₂)
    (htracked : w'.tracked = w₂.tracked ++ [(b, handler)]) (hobjects : w'.objects = w₂.objects)
    (hcells : w'.cells = w₂.cells) : w'.Subscribed (handlers ++ [handler]) := by
  have htracked : w'.tracked = w.tracked ++ [(b, handler)] := by
    rw [htracked, ← hspares.tracked]
    unfold World.tracked
    rw [hrelist.machine]
  have hlist (q : HandlerPlace) (o : ObjectRef) : o ∈ w'.handlersAt q ↔
      o ∈ w₁.handlersAt q ∨ q = p ∧ o = handler := by
    rw [handlersAt_congr hobjects hcells]
    by_cases hq : q = p
    · subst hq
      rw [hrelist.place, List.mem_append, List.mem_singleton]
      exact or_congr_right ⟨fun h => ⟨rfl, h⟩, And.right⟩
    · rw [hrelist.elsewhere q hq]
      exact ⟨.inl, fun h => h.elim id fun h => absurd h.1 hq⟩
  have hfronts {b' : ObjectRef} {q : HandlerPlace} (h : w₁.Fronts b' q) : w'.Fronts b' q :=
    (hrelist.fronts b' q h).of_cell (by rw [hobjects])
  have hnext' : w'.objects.next = w₁.objects.next := by rw [hobjects, hrelist.next]
  have hold {o : ObjectRef} (ho : o.index < w.objects.next) : o ≠ handler := by
    rintro rfl
    exact absurd hfresh (Nat.ne_of_lt ho)
  refine ⟨fun b' o hmem => ?_, fun o ho q hq => ?_, fun o ho => ?_, fun q o hq => ?_⟩
  · rw [htracked] at hmem
    obtain hmem | hmem := List.mem_append.mp hmem
    · obtain ⟨ho, q, hb', hq⟩ := hw.tracked b' o hmem
      obtain ⟨hb', hsame⟩ := hspares.fronts b' o q hmem hb'
      exact ⟨List.mem_append_left _ ho, q, hfronts hb', (hlist q o).mpr (.inl (hsame ▸ hq))⟩
    · cases List.mem_singleton.mp hmem
      exact ⟨List.mem_append_right _ List.mem_cons_self, p, hfronts hb,
        (hlist p handler).mpr (.inr ⟨rfl, rfl⟩)⟩
  · rw [htracked]
    obtain hq | ⟨rfl, rfl⟩ := (hlist q o).mp hq
    · have hq := hspares.lists q o hq
      obtain ho | ho := List.mem_append.mp ho
      · obtain ⟨b', hmem, hb'⟩ := hw.listed o ho q hq
        exact ⟨b', List.mem_append_left _ hmem, hfronts (hspares.fronts b' o q hmem hb').1⟩
      · exact absurd (List.mem_singleton.mp ho) (hold (hw.listedMade q o hq))
    · exact ⟨b, List.mem_append_right _ List.mem_cons_self, hfronts hb⟩
  · rw [hnext']
    obtain ho | ho := List.mem_append.mp ho
    · exact Nat.lt_trans (hw.made o ho) hnext
    · rw [List.mem_singleton.mp ho, hfresh]
      exact hnext
  · rw [hnext']
    obtain hq | ⟨-, rfl⟩ := (hlist q o).mp hq
    · exact Nat.lt_trans (hw.listedMade q o (hspares.lists q o hq)) hnext
    · rw [hfresh]
      exact hnext

/-- A handler leaves the list it was added to and is forgotten. -/
theorem Subscribed.remove {handler : ObjectRef} (hw : w.Subscribed handlers)
    (hrelist : w.Relists p ((w.handlersAt p).filter (· != handler)) w₁)
    (hown : ∀ b, (b, handler) ∈ w.tracked → w.Fronts b p)
    (htracked : w'.tracked = w₁.tracked.filter (·.2 != handler))
    (hobjects : w'.objects = w₁.objects) (hcells : w'.cells = w₁.cells) :
    w'.Subscribed handlers := by
  have htracked (b o : ObjectRef) : (b, o) ∈ w'.tracked ↔ (b, o) ∈ w.tracked ∧ o ≠ handler := by
    rw [htracked]
    unfold World.tracked
    rw [hrelist.machine, List.mem_filter, bne_iff_ne]
  have hlist (q : HandlerPlace) (o : ObjectRef) : o ∈ w'.handlersAt q ↔
      o ∈ w.handlersAt q ∧ (q = p → o ≠ handler) := by
    rw [handlersAt_congr hobjects hcells]
    by_cases hq : q = p
    · subst hq
      rw [hrelist.place, List.mem_filter, bne_iff_ne]
      exact and_congr_right' ⟨fun h _ => h, fun h => h rfl⟩
    · rw [hrelist.elsewhere q hq]
      exact ⟨fun h => ⟨h, fun he => absurd he hq⟩, And.left⟩
  have hfronts {b' : ObjectRef} {q : HandlerPlace} (h : w.Fronts b' q) : w'.Fronts b' q :=
    (hrelist.fronts b' q h).of_cell (by rw [hobjects])
  have hnext : w'.objects.next = w.objects.next := by rw [hobjects, hrelist.next]
  refine ⟨fun b o hmem => ?_, fun o ho q hq => ?_, fun o ho => ?_, fun q o hq => ?_⟩
  · obtain ⟨hmem, hne⟩ := (htracked b o).mp hmem
    obtain ⟨ho, q, hb, hq⟩ := hw.tracked b o hmem
    exact ⟨ho, q, hfronts hb, (hlist q o).mpr ⟨hq, fun _ => hne⟩⟩
  · obtain ⟨hq, hne⟩ := (hlist q o).mp hq
    obtain ⟨b, hmem, hb⟩ := hw.listed o ho q hq
    refine ⟨b, (htracked b o).mpr ⟨hmem, ?_⟩, hfronts hb⟩
    rintro rfl
    exact hne (hb.unique (hown b hmem)) rfl
  · rw [hnext]
    exact hw.made o ho
  · rw [hnext]
    exact hw.listedMade q o ((hlist q o).mp hq).1

end World

/-! ## Adding and removing a handler -/

section

variable {w : World} {a : Activation} {b : ObjectRef} {p : HandlerPlace}
variable {handlers : List ObjectRef}

theorem throwCause_spares {α : Type} (cause : Cause) (w : World) :
    w.SparesSubscriptions (worldAfter ((throwCause cause : Host α) w)) :=
  .of_same rfl rfl rfl

theorem discard_spares (refs : List Ref) (w : World) :
    w.SparesSubscriptions (discard refs none w).2 := by
  unfold discard
  split <;> exact .of_same rfl rfl rfl

/-- A delegate for a script function is a new object, unless it is refused. -/
theorem delegateFor_result (cls : Class) (function : HandleRef) (w : World) :
    (∃ body, delegateFor cls function w = (.ok ⟨w.objects.next⟩,
      { w with objects := w.objects.add ⟨cls, .delegate body⟩ })) ∨
    ∃ cause, delegateFor cls function w =
      (.error cause, (discard [.handle function] none w).2) := by
  have hread : readSession w = ((readSession w).1, w) := rfl
  unfold delegateFor
  rw [bind_of_eq hread]
  split
  · exact .inr ⟨_, rfl⟩
  · unfold makeDelegate
    cases cls.invokeMethod? with
    | some signature => exact .inl ⟨_, rfl⟩
    | none => exact .inr ⟨_, rfl⟩

theorem activation_eq (hrunning : w.activations.head? = some a) : activation w = (a, w) := by
  show (w.activations.head?.getD default, w) = _
  rw [hrunning]
  rfl

theorem subscriptionOf_eq (htarget : a.target = some b) {cls : Class} {target : Option ObjectRef}
    {event : Event} (hcell : w.objects.get? b.index = some ⟨cls, .event target event⟩) :
    subscriptionOf a w = .ok (b, target, event) w := by
  have hread : readObject? b w = (some ⟨cls, .event target event⟩, w) := congrArg (·, w) hcell
  unfold subscriptionOf
  rw [htarget]
  exact bind_of_ok (lift_of_eq hread)

/-- The handlers that an attempt to subscribe added. -/
def subscribedBy : EStateM.Result Failure World HostValue → List ObjectRef
  | .ok (.object handler) _ => [handler]
  | _ => []

/-- What the session remembers after an attempt to subscribe. -/
def SubscribedAfter (handlers : List ObjectRef) (r : EStateM.Result Failure World HostValue) :
    Prop :=
  (worldAfter r).Subscribed (handlers ++ subscribedBy r)

theorem SubscribedAfter.of_throwCause (cause : Cause) (hw : w.Subscribed handlers) :
    SubscribedAfter handlers (throwCause cause w) := by
  have hspared := hw.spared (throwCause_spares (α := HostValue) cause w)
  rw [← List.append_nil handlers] at hspared
  exact hspared

theorem trackEvent_tracked {s : Session} (hs : w.session? = some s) (b h : ObjectRef) :
    (trackEvent b h w).2.tracked = w.tracked ++ [(b, h)] := by
  have hs : w.machine.session = some s := by
    unfold World.session? at hs
    split at hs
    · exact hs
    · cases hs
  show ((w.machine.session.map _).map Session.events).getD [] =
    (w.machine.session.map Session.events).getD [] ++ [(b, h)]
  rw [hs]
  rfl

/-- A new delegate joins the list of the event and is remembered. -/
theorem subscribeNew_subscribed {event : Event} {name : String} {shared : CellRef}
    {target : Option ObjectRef} {s : Session} (cls : Class) (body : DelegateBody)
    (hw : w.Subscribed handlers) (hb : w.Fronts b (.behind name shared target))
    (hplace : w.HasPlace (.behind name shared target)) (hadd : event.add = .handlers name shared)
    (hs : w.session? = some s) : ∃ w',
      event.subscribe target ⟨w.objects.next⟩
        { w with objects := w.objects.add ⟨cls, .delegate body⟩ } = .ok () w' ∧
      (trackEvent b ⟨w.objects.next⟩ w').2.Subscribed (handlers ++ [⟨w.objects.next⟩]) := by
  have hspares := w.newObject_spares cls (.delegate body) rfl
  have hthere := hplace.newObject cls (.delegate body) rfl
  have hnew := hb.newObject cls (.delegate body)
  have hnext : w.objects.next < (w.objects.add ⟨cls, .delegate body⟩).next := by
    rw [Store.next_add]
    exact Nat.lt_succ_self _
  have hchange := change_relists event.name (f := (· ++ [⟨w.objects.next⟩])) (.inl hthere)
  obtain ⟨w', hok⟩ := change_ok event.name hthere (· ++ [⟨w.objects.next⟩])
  rw [hok] at hchange
  have hmachine : w'.machine = w.machine := hchange.machine
  have hs' : w'.session? = some s := by
    unfold World.session?
    rw [hmachine]
    exact hs
  refine ⟨w', ?_, hw.add hspares rfl hnext hnew hchange (trackEvent_tracked hs' _ _) rfl rfl⟩
  unfold Event.subscribe
  rw [hadd]
  exact hok

/-- A handler that is subscribed is remembered; an attempt that fails adds none. -/
theorem runSubscribe_subscribed (hw : w.Subscribed handlers)
    (hrunning : w.activations.head? = some a) (htarget : a.target = some b) (hb : w.Fronts b p)
    (hplace : w.HasPlace p) : SubscribedAfter handlers (runSubscribe w) := by
  have hfronts := hb
  obtain ⟨cls, target, event, name, shared, hcell, hadd, -, rfl⟩ := hb
  unfold runSubscribe
  rw [bind_of_ok (lift_of_eq (activation_eq hrunning)),
    bind_of_ok (subscriptionOf_eq htarget hcell)]
  dsimp only
  cases a.arguments.getD 0 .null with
  | handle kind function =>
    cases kind with
    | function =>
      dsimp only
      rw [bind_of_ok (show (get : Host World) w = .ok w w from rfl)]
      cases hs : w.session? with
      | none => exact .of_throwCause _ hw
      | some s =>
        dsimp only
        cases s.catalog.find? event.delegateType with
        | none => exact .of_throwCause _ hw
        | some cls =>
          dsimp only
          obtain ⟨body, hmade⟩ | ⟨cause, hrefused⟩ := delegateFor_result cls function w
          · obtain ⟨w', hok, hw'⟩ := subscribeNew_subscribed cls body hw hfronts hplace hadd hs
            rw [bind_of_ok (lift_of_eq hmade)]
            dsimp only
            rw [bind_of_ok (lift_of_eq (attempt_of_ok hok))]
            exact hw'
          · rw [bind_of_ok (lift_of_eq hrefused)]
            exact .of_throwCause _ (hw.spared (discard_spares _ w))
    | _ => exact .of_throwCause _ hw
  | _ => exact .of_throwCause _ hw

theorem untrackEvent_tracked (h : ObjectRef) (w : World) :
    (untrackEvent h w).2.tracked = w.tracked.filter (·.2 != h) ∧
      (untrackEvent h w).2.objects = w.objects ∧ (untrackEvent h w).2.cells = w.cells := by
  let w₁ : World := { w with machine := { w.machine with
    session := w.machine.session.map fun s => { s with events := s.events.filter (·.2 != h) } } }
  have htracked : w₁.tracked = w.tracked.filter (·.2 != h) := by
    show ((w.machine.session.map _).map Session.events).getD [] =
      ((w.machine.session.map Session.events).getD []).filter (·.2 != h)
    cases w.machine.session <;> rfl
  obtain ⟨refs, huntrack⟩ : ∃ refs, untrackEvent h w = discard refs none w₁ := ⟨_, rfl⟩
  rw [huntrack, ← htracked]
  unfold discard
  split <;> exact ⟨rfl, rfl, rfl⟩

theorem runUnsubscribe_of_object (hrunning : w.activations.head? = some a)
    (htarget : a.target = some b) {cls : Class} {target : Option ObjectRef} {event : Event}
    (hcell : w.objects.get? b.index = some ⟨cls, .event target event⟩) {h : ObjectRef}
    (hargument : (a.arguments.getD 0 .null).asObject? = some h) :
    runUnsubscribe w = (do
      event.unsubscribe target h
      if (← get).session?.isNone then throwCause noSession
      untrackEvent h
      return .null : Host HostValue) w := by
  unfold runUnsubscribe
  rw [bind_of_ok (lift_of_eq (activation_eq hrunning)),
    bind_of_ok (subscriptionOf_eq htarget hcell)]
  dsimp only
  rw [hargument]

theorem runUnsubscribe_ok (hrunning : w.activations.head? = some a) (htarget : a.target = some b)
    {cls : Class} {target : Option ObjectRef} {event : Event}
    (hcell : w.objects.get? b.index = some ⟨cls, .event target event⟩) {h : ObjectRef}
    (hargument : (a.arguments.getD 0 .null).asObject? = some h) {w' : World}
    (hok : event.unsubscribe target h w = .ok () w') (hattached : w'.session?.isSome) :
    runUnsubscribe w = .ok .null (untrackEvent h w').2 := by
  have hnone : w'.session?.isNone = false := by
    rw [← Option.not_isSome, hattached, Bool.not_true]
  rw [runUnsubscribe_of_object hrunning htarget hcell hargument, bind_of_ok hok,
    bind_of_ok (show (get : Host World) w' = .ok w' w' from rfl), hnone]
  rfl

theorem World.Relists.session?_eq {hs : List ObjectRef} {w' : World} (h : w.Relists p hs w') :
    w'.session? = w.session? := by
  unfold World.session?
  rw [h.machine]

/-- A hook fails only where there is no list. -/
theorem unsubscribe_error {event : Event} {name : String} {shared : CellRef}
    (hremove : event.remove = .handlers name shared) {target : Option ObjectRef} {h : ObjectRef}
    {e : Failure} {w' : World} (herror : event.unsubscribe target h w = .error e w') :
    w.SparesSubscriptions w' := by
  unfold Event.unsubscribe at herror
  rw [hremove] at herror
  cases target with
  | none =>
    rw [bind_of_ok (change_of_cell _)] at herror
    cases herror
  | some o =>
    cases hbag : w.bagOf? o with
    | some bag =>
      rw [bind_of_ok (change_of_bag hbag _)] at herror
      cases herror
    | none =>
      have hthrow := change_of_noBag event.name name shared hbag (·.filter (· != h))
      have hnamed := w.relists_namedException (.bag o name) ("no target for " ++ event.name)
      rw [bind_of_error hthrow] at herror
      cases herror
      exact hnamed.spares

/-- A handler that is removed from the event it was added to is forgotten, and so is one that is
not subscribed. -/
theorem runUnsubscribe_subscribed (hw : w.Subscribed handlers)
    (hrunning : w.activations.head? = some a) (htarget : a.target = some b) (hb : w.Fronts b p)
    (hattached : w.session?.isSome)
    (hown : ∀ h b', (a.arguments.getD 0 .null).asObject? = some h → (b', h) ∈ w.tracked →
      w.Fronts b' p) : (worldAfter (runUnsubscribe w)).Subscribed handlers := by
  obtain ⟨cls, target, event, name, shared, hcell, -, hremove, rfl⟩ := hb
  cases hargument : (a.arguments.getD 0 .null).asObject? with
  | none =>
    unfold runUnsubscribe
    rw [bind_of_ok (lift_of_eq (activation_eq hrunning)),
      bind_of_ok (subscriptionOf_eq htarget hcell)]
    dsimp only
    rw [hargument]
    exact hw
  | some h =>
    have hrelist := unsubscribe_relists (w := w) hremove target h
    cases hr : event.unsubscribe target h w with
    | error e w₁ =>
      rw [runUnsubscribe_of_object hrunning htarget hcell hargument, bind_of_error hr]
      exact hw.spared (unsubscribe_error hremove hr)
    | ok _ w₁ =>
      rw [hr] at hrelist
      have hattached : w₁.session?.isSome := by
        rw [show w₁.session? = w.session? from hrelist.session?_eq]
        exact hattached
      rw [runUnsubscribe_ok hrunning htarget hcell hargument hr hattached]
      obtain ⟨htracked, hobjects, hcells⟩ := untrackEvent_tracked h w₁
      exact hw.remove hrelist (fun b' hmem => hown h b' hargument hmem) htracked hobjects hcells

/-- A handler that is removed from another event than the one it was added to stays in its list,
but is forgotten. -/
theorem forgotten_elsewhere {h : ObjectRef} {q : HandlerPlace} (hlisted : h ∈ w.handlersAt p)
    (hrunning : w.activations.head? = some a) (htarget : a.target = some b) (hb : w.Fronts b q)
    (hplace : w.HasPlace q) (hattached : w.session?.isSome)
    (hargument : (a.arguments.getD 0 .null).asObject? = some h) (hother : p ≠ q) :
    ∃ w', runUnsubscribe w = .ok .null w' ∧ h ∈ w'.handlersAt p ∧ ∀ c, (c, h) ∉ w'.tracked := by
  obtain ⟨cls, target, event, name, shared, hcell, -, hremove, rfl⟩ := hb
  have hrelist := unsubscribe_relists (w := w) hremove target h
  obtain ⟨w₁, hok⟩ : ∃ w₁, event.unsubscribe target h w = .ok () w₁ := by
    obtain ⟨w₁, hok⟩ := change_ok event.name hplace (·.filter (· != h))
    unfold Event.unsubscribe
    rw [hremove, bind_of_ok hok]
    exact ⟨_, rfl⟩
  rw [hok] at hrelist
  have hattached : w₁.session?.isSome := by
    rw [show w₁.session? = w.session? from hrelist.session?_eq]
    exact hattached
  obtain ⟨htracked, hobjects, hcells⟩ := untrackEvent_tracked h w₁
  refine ⟨_, runUnsubscribe_ok hrunning htarget hcell hargument hok hattached, ?_, fun c hc => ?_⟩
  · rw [World.handlersAt_congr hobjects hcells, show w₁.handlersAt p = w.handlersAt p from
      hrelist.elsewhere p hother]
    exact hlisted
  · rw [htracked, List.mem_filter] at hc
    exact bne_iff_ne.mp hc.2 rfl

end

/-! ## Runs -/

/-- Runs in which scripts add handlers to events and remove them from the events they were added
to, with the handlers they added. The hooks of the events are those of one list, which is there
when a handler is added to it. Everything else in between spares the subscriptions. -/
inductive SubscriptionRun : List ObjectRef → World → Prop where
  /-- No script subscribed to anything yet. -/
  | opened {w : World} (untracked : w.tracked = [])
      (made : ∀ p, ∀ h ∈ w.handlersAt p, h.index < w.objects.next) : SubscriptionRun [] w
  | subscribe {handlers : List ObjectRef} {w : World} {a : Activation} {b : ObjectRef}
      {p : HandlerPlace} (before : SubscriptionRun handlers w)
      (running : w.activations.head? = some a) (target : a.target = some b) (fronts : w.Fronts b p)
      (place : w.HasPlace p) :
      SubscriptionRun (handlers ++ subscribedBy (runSubscribe w)) (worldAfter (runSubscribe w))
  | unsubscribe {handlers : List ObjectRef} {w : World} {a : Activation} {b : ObjectRef}
      {p : HandlerPlace} (before : SubscriptionRun handlers w)
      (running : w.activations.head? = some a) (target : a.target = some b) (fronts : w.Fronts b p)
      (attached : w.session?.isSome)
      (own : ∀ h b', (a.arguments.getD 0 .null).asObject? = some h → (b', h) ∈ w.tracked →
        w.Fronts b' p) :
      SubscriptionRun handlers (worldAfter (runUnsubscribe w))
  | beside {handlers : List ObjectRef} {w w' : World} (before : SubscriptionRun handlers w)
      (spares : w.SparesSubscriptions w') : SubscriptionRun handlers w'

theorem SubscriptionRun.subscribed {handlers : List ObjectRef} {w : World}
    (h : SubscriptionRun handlers w) : w.Subscribed handlers := by
  induction h with
  | @opened w untracked made =>
    refine ⟨fun b h hmem => ?_, fun h hh => absurd hh List.not_mem_nil,
      fun h hh => absurd hh List.not_mem_nil, made⟩
    rw [untracked] at hmem
    exact absurd hmem List.not_mem_nil
  | subscribe before running target fronts place ih =>
    exact runSubscribe_subscribed ih running target fronts place
  | unsubscribe before running target fronts attached own ih =>
    exact runUnsubscribe_subscribed ih running target fronts attached own
  | beside before spares ih => exact ih.spared spares

/-- At every point of a run the session remembers exactly the handlers of scripts that are in some
list, and closing the session then leaves none of them in any list. -/
theorem SubscriptionRun.remembered {handlers : List ObjectRef} {w : World}
    (h : SubscriptionRun handlers w) :
    (∀ o, (∃ b, (b, o) ∈ w.tracked) ↔ o ∈ handlers ∧ ∃ p, o ∈ w.handlersAt p) ∧
      ∀ o ∈ handlers, ∀ p, o ∉ (closeSession w).2.handlersAt p :=
  ⟨h.subscribed.exact, h.subscribed.closed⟩

/-! ### Two targets of one event -/

/-- A delegate class for handlers without parameters. -/
def changedHandler : Class where
  name := "Demo.Handler"
  kind := .delegate
  members := [.method {
    name := "Invoke", declaringType := "Demo.Handler", params := [], ret := .void
    body := some .delegateBody }]

def changedEvent : Event where
  name := "changed"
  delegateType := "Demo.Handler"
  isStatic := false
  add := .handlers "changed" ⟨0⟩
  remove := .handlers "changed" ⟨0⟩

/-- Two objects with the event, each with an object that stands for its event. -/
def twoTargets : World where
  machine := {
    id := 0, registry := ⟨0⟩, globals := ⟨0⟩, appData := .session
    session := some {
      id := 0, options := {}, adapters := .build, objects := ⟨0⟩
      catalog := Catalog.initial.register changedHandler } }
  objects := (((Store.add {} ⟨{ name := "Demo.O" }, .bag {}⟩).add
    ⟨{ name := "Demo.O" }, .bag {}⟩).add ⟨eventClass, .event (some ⟨0⟩) changedEvent⟩).add
    ⟨eventClass, .event (some ⟨1⟩) changedEvent⟩
  cells := Store.add {} (.handlers [])
  bindings := [("a", .object ⟨0⟩), ("b", .object ⟨1⟩)]

/-- A call of a method of an event object is about to run. -/
def World.calling (w : World) (b : ObjectRef) (argument : HostValue) : World :=
  { w with activations := [⟨eventClass, some b, [argument]⟩] }

/-- A script function was added to the event of the first target. -/
def subscribedFirst : World :=
  worldAfter (runSubscribe (twoTargets.calling ⟨2⟩ (.handle .function ⟨0⟩)))

/-- The handler was then removed from the event of the second. -/
def unsubscribedSecond : World :=
  worldAfter (runUnsubscribe (subscribedFirst.calling ⟨3⟩ (.object ⟨4⟩)))

theorem twoTargets_handlersAt (b : ObjectRef) (argument : HostValue) (p : HandlerPlace) :
    (twoTargets.calling b argument).handlersAt p = [] := by
  cases p with
  | bag o event =>
    show (((twoTargets.objects.get? o.index).bind (·.bag?)).bind (·.handlers.get? event)).getD [] =
      []
    unfold twoTargets
    dsimp only
    rw [Store.get?_add, Store.get?_add, Store.get?_add, Store.get?_add,
      Store.get?_eq_none {} (Nat.zero_le _)]
    split
    · rfl
    · split
      · rfl
      · split
        · rfl
        · split <;> rfl
  | cell c =>
    have hcell : (twoTargets.calling b argument).cells.get? c.index =
        if c.index = 0 then some (.handlers []) else none := by
      show (Store.add {} (Cell.handlers [])).get? c.index = _
      rw [Store.get?_add, Store.get?_eq_none {} (Nat.zero_le _)]
      rfl
    unfold World.handlersAt
    dsimp only
    rw [hcell]
    by_cases hc : c.index = 0
    · rw [if_pos hc]
    · rw [if_neg hc]

theorem subscribedFirst_run : SubscriptionRun [⟨4⟩] subscribedFirst := by
  have hopened : SubscriptionRun [] (twoTargets.calling ⟨2⟩ (.handle .function ⟨0⟩)) := by
    refine .opened rfl fun p h hh => ?_
    rw [twoTargets_handlersAt] at hh
    exact absurd hh List.not_mem_nil
  exact hopened.subscribe (p := .bag ⟨0⟩ "changed") rfl rfl
    ⟨_, _, _, _, _, rfl, rfl, rfl, rfl⟩ ⟨_, rfl⟩

/-- The handler is remembered, and closing takes it out of its list. -/
theorem remembered_subscribedFirst : (∃ b, (b, ⟨4⟩) ∈ subscribedFirst.tracked) ∧
    ⟨4⟩ ∉ (closeSession subscribedFirst).2.handlersAt (.bag ⟨0⟩ "changed") := by
  obtain ⟨htracked, hclosed⟩ := subscribedFirst_run.remembered
  exact ⟨(htracked ⟨4⟩).mpr ⟨List.mem_cons_self, .bag ⟨0⟩ "changed", by decide +kernel⟩,
    hclosed ⟨4⟩ List.mem_cons_self _⟩

/-- A handler that was removed from the event of another target is still in its list when the
session is gone. -/
theorem left_behind_elsewhere : SubscriptionRun [⟨4⟩] subscribedFirst ∧
    unsubscribedSecond.tracked = [] ∧
    unsubscribedSecond.handlersAt (.bag ⟨0⟩ "changed") = [⟨4⟩] ∧
    (closeSession unsubscribedSecond).2.handlersAt (.bag ⟨0⟩ "changed") = [⟨4⟩] :=
  ⟨subscribedFirst_run, by decide +kernel, by decide +kernel, by decide +kernel⟩

end ScriptBridge
