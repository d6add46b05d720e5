import ScriptBridge.Memory.World

/-!
# Reclaiming memory

A cell lives as long as something holds it. Giving up a reference (`discard`) only notes it;
`settle` then looks at the notes in order, and a cell that nothing holds any more, later notes
included, is emptied and what it held is noted before the rest. Three kinds of cell leave a trace
when they go: a userdata with a finalizer joins the graveyard of the machine that made it, a
handle queues its reference for release in its session, and a weak table entry reads as nil.
-/

namespace ScriptBridge

/-! ## What a cell holds, in the order it lets go -/

def Entry.refs (e : Entry) : List Ref := e.written.refs ++ e.slot.kept.flatMap Value.refs

def Table.refs (t : Table) : List Ref :=
  t.entries.flatMap Entry.refs ++ (t.metatable.map Ref.table).toList

def Function.refs (f : Function) : List Ref :=
  match f.code with
  | .dispatcher d => [.dispatcher d]
  | _ => []

def Userdata.refs (u : Userdata) : List Ref := (u.metatable.map Ref.table).toList

def Bag.refs (b : Bag) : List Ref :=
  b.slots.flatMap (·.2.refs) ++ b.items.flatMap (fun (k, v) => k.refs ++ v.refs)
    ++ b.handlers.flatMap fun (_, hs) => hs.map Ref.object

/-- A class lives as long as something holds it, and its storage as long as the class. -/
def Class.refs (c : Class) : List Ref := c.cells.map Ref.cell

def Method.refs (m : Method) : List Ref := m.storage.map Ref.cell

def ObjectData.refs : ObjectData → List Ref
  | .bag b => b.refs
  | .foreign => []
  | .array _ items => items.toList.flatMap HostValue.refs
  | .delegate (.statements _) => []
  | .delegate (.script f signature) => .handle f :: signature.refs
  | .typeOf cls => cls.refs
  | .scriptTable t => [.handle t]
  | .event target e => (target.map Ref.object).toList ++ e.cells.map Ref.cell

def HostObject.refs (o : HostObject) : List Ref := o.cls.refs ++ o.data.refs

def Plan.refs (p : Plan) : List Ref :=
  p.method.refs ++ p.template.flatMap HostValue.refs
    ++ p.slots.flatMap fun s => s.source.cells.map Ref.cell

def Dispatcher.refs (d : Dispatcher) : List Ref :=
  d.cls.refs ++ d.candidates.flatMap Method.refs ++ (d.bound.map Ref.object).toList
    ++ (d.plan.map Plan.refs).getD []

def Cell.refs : Cell → List Ref
  | .value v => v.refs
  | .handlers hs => hs.map Ref.object

/-! ## What is held from outside the heap -/

def FoundMember.refs : FoundMember → List Ref
  | .method d f _ => [.dispatcher d, .function f]
  | .field f | .property f => f.cells.map Ref.cell
  | .event e => e.cells.map Ref.cell
  | .nested cls => (cls.map Class.refs).getD []

def Catalog.refs (c : Catalog) : List Ref := c.classes.flatMap (·.2.refs)

def Session.refs (s : Session) : List Ref :=
  s.catalog.refs ++ s.registry.objects.map (fun (_, o) => .object o) ++ [.table s.objects]
    ++ s.members.flatMap (·.2.refs) ++ s.constructors.map (fun (_, d) => .dispatcher d)
    ++ s.typeObjects.map (fun (_, o) => .object o)
    ++ s.events.flatMap fun (b, h) => [.object b, .object h]

def Frame.refs (f : Frame) : List Ref := (f.function.map Ref.function).toList

/-- What a machine holds besides its stack. -/
def Machine.refs (m : Machine) : List Ref :=
  m.frames.flatMap Frame.refs ++ [.table m.registry, .table m.globals]
    ++ m.graveyard.map (fun p => .table p.metatable) ++ (m.session.map Session.refs).getD []

def Activation.refs (a : Activation) : List Ref :=
  (a.target.map Ref.object).toList ++ a.arguments.flatMap HostValue.refs

/-- What the host holds by name, in running calls, and between steps. -/
def World.hostRefs (w : World) : List Ref :=
  w.kept.flatMap (·.2.refs) ++ w.bindings.flatMap (·.2.refs)
    ++ w.wrappers.map (fun (_, d) => .dispatcher d) ++ w.activations.flatMap Activation.refs
    ++ w.held

def Machine.holds (m : Machine) (r : Ref) : Bool :=
  m.stack.any (·.refs.contains r) || m.refs.contains r

/-- Whether some cell of the heap holds a reference. -/
def World.heapHolds (w : World) (r : Ref) : Bool :=
  w.tables.any (·.refs.contains r) || w.functions.any (·.refs.contains r)
    || w.userdata.any (·.refs.contains r) || w.objects.any (·.refs.contains r)
    || w.dispatchers.any (·.refs.contains r) || w.cells.any (·.refs.contains r)

def World.holds (w : World) (r : Ref) : Bool :=
  w.machine.holds r || w.parked.any (·.holds r) || w.hostRefs.contains r || w.heapHolds r

/-! ## Emptying a cell -/

/-- Changes the machine of an id, if there is one. -/
def World.modifyMachineOf (w : World) (id : Nat) (f : Machine → Machine) : World :=
  if w.machine.id == id then { w with machine := f w.machine }
  else { w with parked := w.parked.map fun m => if m.id == id then f m else m }

def World.hasMachine (w : World) (id : Nat) : Bool :=
  w.machine.id == id || w.parked.any (·.id == id)

def Machine.bury (m : Machine) (p : Pending) : Machine :=
  { m with graveyard := m.graveyard ++ [p] }

/-- Queues a reference for release in a session, if the machine has that session. -/
def Machine.queueRelease (m : Machine) (session : Nat) (r : Int) : Machine :=
  { m with session := m.session.map fun s =>
      if s.id == session then { s with releases := s.releases ++ [r] } else s }

/-- The metatable under which a dying userdata is buried: it has a finalizer, and it is not the
table that is just being written. -/
def World.finalizerTable? (w : World) (u : Userdata) (during : Option TableRef) :
    Option TableRef :=
  match u.metatable with
  | some mt =>
    if !u.finalized && during != some mt && !(w.fieldOf mt "__gc").isNil && w.hasMachine u.home
    then some mt else none
  | none => none

/-- Empties the cell of a reference; gives what it held. -/
def World.empty (w : World) (d : Dropped) : World × List Ref :=
  match d.ref with
  | .table t =>
    ({ w with tables := w.tables.erase t.index },
      ((w.tables.get? t.index).map Table.refs).getD [])
  | .function f =>
    ({ w with functions := w.functions.erase f.index },
      ((w.functions.get? f.index).map Function.refs).getD [])
  | .userdata u =>
    match w.userdata.get? u.index with
    | none => (w, [])
    | some cell =>
      let w := { w with userdata := w.userdata.erase u.index }
      match w.finalizerTable? cell d.during with
      | some mt => (w.modifyMachineOf cell.home (·.bury ⟨cell.payload, mt⟩), [])
      | none => (w, cell.refs)
  | .object o =>
    ({ w with objects := w.objects.erase o.index },
      ((w.objects.get? o.index).map HostObject.refs).getD [])
  | .handle h =>
    match w.handles.get? h.index with
    | none => (w, [])
    | some cell =>
      let w := { w with handles := w.handles.erase h.index }
      let release (m : Machine) : Machine := m.queueRelease cell.session cell.reference
      ({ w with machine := release w.machine, parked := w.parked.map release }, [])
  | .dispatcher d =>
    ({ w with dispatchers := w.dispatchers.erase d.index },
      ((w.dispatchers.get? d.index).map Dispatcher.refs).getD [])
  | .cell c =>
    ({ w with cells := w.cells.erase c.index },
      ((w.cells.get? c.index).map Cell.refs).getD [])

/-- Looks at the first note. -/
def World.settleStep (w : World) : World :=
  match w.dropped with
  | [] => w
  | d :: rest =>
    let w := { w with dropped := rest }
    if rest.any (·.ref == d.ref) || w.holds d.ref then w
    else
      let (w, refs) := w.empty d
      { w with dropped := refs.map (⟨·, d.during⟩) ++ rest }

/-- How many references the cells of the heap hold; no settling can note more. -/
def World.heapSize (w : World) : Nat :=
  w.tables.sum (·.refs.length) + w.functions.sum (·.refs.length)
    + w.userdata.sum (·.refs.length) + w.objects.sum (·.refs.length)
    + w.dispatchers.sum (·.refs.length) + w.cells.sum (·.refs.length)

def World.settleSteps : Nat → World → World
  | 0, w => w
  | fuel + 1, w => if w.dropped.isEmpty then w else settleSteps fuel w.settleStep

/-- Looks at every note. -/
def World.settle (w : World) : World :=
  if w.dropped.isEmpty then w else w.settleSteps (w.dropped.length + w.heapSize)

/-! ## Giving up references -/

/-- Notes references that were let go of. -/
def discard (refs : List Ref) (during : Option TableRef := none) : Action Unit :=
  if refs.isEmpty then pure ()
  else modify fun w => { w with dropped := w.dropped ++ refs.map (⟨·, during⟩) }

def settle : Action Unit := modify World.settle

/-- Lets go of references at once. -/
def release (refs : List Ref) (during : Option TableRef := none) : Action Unit := do
  discard refs during
  settle

/-- Holds references while an action runs, and lets go of them afterwards. -/
def holding {ε α : Type} (refs : List Ref) (x : EStateM ε World α) : EStateM ε World α := do
  let before := (← get).held
  modify fun w => { w with held := refs ++ w.held }
  let result ← attempt x
  modify fun w => { w with held := before }
  discard refs
  match result with
  | .ok a => return a
  | .error e => throw e

end ScriptBridge
