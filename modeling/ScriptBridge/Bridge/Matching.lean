import ScriptBridge.Bridge.Conversion

/-!
# Matching arguments with parameters

`matchParameters` walks the formal parameters of one method over the arguments and records how
each parameter is filled. The resulting plan can be replayed over other arguments of the same
number. `resolve` takes the first candidate, in declaration order, that accepts the arguments.
-/

namespace ScriptBridge

/-! ## Building a plan -/

/-- A plan under construction: what the parameters so far get, and the next argument. -/
structure Filling where
  template : List HostValue := []
  slots : List ArgumentSlot := []
  outSlots : List Nat := []
  cursor : Nat := 0

namespace Filling

/-- The parameter gets a fixed value. -/
def fixed (f : Filling) (v : HostValue) : Filling := { f with template := f.template ++ [v] }

/-- The parameter is an output without an argument. -/
def output (f : Filling) (p : Param) : Filling :=
  { f with
    template := f.template ++ [p.type.defaultValue]
    outSlots := f.outSlots ++ [f.template.length] }

/-- The parameter is filled from the next `count` arguments. -/
def slot (f : Filling) (p : Param) (source : ArgumentSource) (count : Nat) : Filling :=
  { f with
    template := f.template ++ [p.type.defaultValue]
    slots := f.slots ++ [⟨f.template.length, f.cursor, source⟩]
    cursor := f.cursor + count }

/-- The parameter is filled from the next argument; a reference is also an output. -/
def single (f : Filling) (p : Param) (c : Conversion) : Filling :=
  let g := f.slot p (.single c) 1
  if p.mode == .reference then { g with outSlots := g.outSlots ++ [f.template.length] } else g

end Filling

/-- The conversions of the longest run of arguments that match an element type. -/
def matchRun (element : HostType) : List Value → Action (List Conversion)
  | [] => return []
  | v :: rest => do
    match ← checkType element v with
    | some c => return c :: (← matchRun element rest)
    | none => return []

/-- A variadic parameter over the remaining arguments: a table that converts as a whole, or a run
of arguments. Also gives how many arguments are used. -/
def matchVariadic (element : HostType) (rest : List Value) :
    Action (Option (ArgumentSource × Nat)) := do
  let wholeTable ←
    match rest.head? with
    | some v => itemsConvert (tableToArray element) v
    | none => pure false
  if wholeTable then return some (.single (.arrayTable element), 1)
  match ← matchRun element rest with
  | [] => return none
  | cs => return some (.run element cs, cs.length)

/-- One parameter when no argument is left. -/
def fillMissing (f : Filling) (p : Param) : Option Filling :=
  match p.default with
  | some v => some (f.fixed v)
  | none =>
    if p.variadic then p.element?.map fun e => f.slot p (.emptyArray e) 0 else none

/-- One parameter that takes no argument: it needs a default. -/
def fillDefault (f : Filling) (p : Param) : Option Filling := p.default.map f.fixed

/-- One parameter. -/
def fillParam (arguments : List Value) (f : Filling) (p : Param) : Action (Option Filling) := do
  if p.mode == .output then return some (f.output p)
  match arguments.drop f.cursor with
  | [] => return fillMissing f p
  | v :: rest =>
    match ← checkType p.type v with
    | some c => return some (f.single p c)
    | none =>
      let variadic ←
        match p.variadic, p.element? with
        | true, some e => matchVariadic e (v :: rest)
        | _, _ => pure none
      match variadic with
      | some (source, count) => return some (f.slot p source count)
      | none => return fillDefault f p

/-- The parameters in order, until one cannot be filled. -/
def fillParams (arguments : List Value) : List Param → Filling → Action (Option Filling)
  | [], f => return some f
  | p :: rest, f => do
    match ← fillParam arguments f p with
    | some f => fillParams arguments rest f
    | none => return none

/-- The plan of a method for some arguments, if its parameters accept them all. -/
def matchParameters (m : Method) (arguments : List Value) : Action (Option Plan) := do
  match ← fillParams arguments m.params {} with
  | none => return none
  | some f =>
    if f.cursor != arguments.length then return none
    return some {
      method := m
      template := f.template
      slots := f.slots
      outSlots := f.outSlots
      returnsVoid := m.ret == .void
      argumentCount := arguments.length }

/-! ## Replaying a plan -/

/-- Reads a run of arguments from an offset on. -/
def extractRun : List Conversion → List Value → (position : Nat) → List HostValue →
    Action (Except ReplayError (List HostValue))
  | [], _, _, done => return .ok done
  | c :: cs, arguments, position, done => do
    match ← c.extract (arguments.head?.getD .nil) with
    | some item => extractRun cs arguments.tail (position + 1) (done ++ [item])
    | none =>
      release (done.flatMap HostValue.refs)
      return .error (.invalid position)

/-- The value of one slot. -/
def ArgumentSlot.extract (s : ArgumentSlot) (arguments : List Value) :
    Action (Except ReplayError HostValue) := do
  let rest := arguments.drop s.offset
  match s.source with
  | .single c =>
    match ← c.extract (rest.head?.getD .nil) with
    | some v => return .ok v
    | none => return .error (.invalid (s.offset + 1))
  | .run element cs =>
    match ← extractRun cs rest (s.offset + 1) [] with
    | .ok items => return .ok (.object (← newArray element items.toArray))
    | .error e => return .error e
  | .emptyArray element => return .ok (.object (← newArray element #[]))

/-- The slots in order; the first that fails ends it. -/
def extractSlots (arguments : List Value) : List ArgumentSlot → List HostValue →
    Action (Except ReplayError (List HostValue))
  | [], done => return .ok done
  | s :: rest, done => do
    match ← s.extract arguments with
    | .ok v => extractSlots arguments rest (done.set s.param v)
    | .error e =>
      release (done.flatMap HostValue.refs)
      return .error e

/-- The host arguments a plan makes of some arguments. -/
def Plan.replay (p : Plan) (arguments : List Value) :
    Action (Except ReplayError (List HostValue)) := do
  if arguments.length != p.argumentCount then return .error .argumentCount
  extractSlots arguments p.slots p.template

/-! ## Resolving -/

/-- A candidate's plan and host arguments, if it accepts the arguments. -/
def tryCandidate (m : Method) (arguments : List Value) :
    Action (Option (Plan × List HostValue)) := do
  match ← matchParameters m arguments with
  | none => return none
  | some p =>
    match ← p.replay arguments with
    | .ok converted => return some (p, converted)
    | .error _ => return none

/-- The first candidate that accepts the arguments. -/
def resolve : List Method → List Value → Action (Option (Plan × List HostValue))
  | [], _ => return none
  | m :: rest, arguments => do
    match ← tryCandidate m arguments with
    | some found => return some found
    | none => resolve rest arguments

end ScriptBridge
