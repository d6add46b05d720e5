import ScriptBridge.Script.Command
import ScriptBridge.Script.Scenario

/-!
# Questions about single values

What can be asked of values of the machine, errors, host types, host values and exceptions on
their own.
-/

namespace ScriptBridge

namespace Probe

/-- Runs an action in a session with the default options. -/
def inFreshSession {α : Type} (x : Action α) : α :=
  let run : Action α := do
    openSession {} .build
    x
  (run (World.start {})).1

/-- A relation between the members of a list, as a square. -/
def square {α β : Type} (f : α → α → β) (xs : List α) : List (List β) :=
  xs.map fun x => xs.map (f x)

/-! ## Values of the machine -/

structure ValueFacts where
  type : ValueType
  isNil : Bool
  isTruthy : Bool
  text : Option String
  number : Option Number
  display : String

def factsOfValue (v : Value) : ValueFacts :=
  { type := v.type, isNil := v.isNil, isTruthy := v.isTruthy, text := v.asText?
    number := v.toNumber?, display := v.display }

/-- What each value is, and which are equal. -/
def values (ls : List Literal) : List ValueFacts × List (List Bool) :=
  inFreshSession do
    let vs ← buildLiterals ls
    return (vs.map factsOfValue, square Value.rawEqual vs)

/-! ## Errors of the machine -/

inductive ErrorSource where
  | message (s : String)
  | value (l : Literal)
  | stackOverflow

structure ErrorFacts where
  display : String
  value : Option ValueView
  /-- The value a protected call leaves for it. -/
  caught : ValueView

def ErrorSource.build : ErrorSource → Action Raise
  | message s => return .runtime (.text s)
  | value l => do return .runtime (← l.build)
  | stackOverflow => return .stackOverflow

def error (s : ErrorSource) : ErrorFacts :=
  inFreshSession do
    let e ← s.build
    return {
      display := e.toValue.display
      value := ← e.value?.mapM fun v => showValue v
      caught := ← showValue e.toValue }

/-! ## Host types -/

structure TypeFacts where
  type : HostType
  default : HostView
  unwrapped : HostType
  roundTrips : Bool

/-- What a text says as a type. -/
def type (s : String) : TypeFacts :=
  let t := HostType.parse s
  { type := t, default := t.defaultValue.plainView, unwrapped := t.unwrapNullable
    roundTrips := HostType.parse t.name == t }

/-! ## Host values -/

structure HostValueFacts where
  kind : String
  isNull : Bool
  bool : Option Bool
  int64 : Option Int
  int32 : Option Int
  number : Option Number
  text : Option String
  object : Option String
  shown : HostView

/-- The text of an object for its developers. -/
def objectDebugText (o : HostObject) : String := "NativeObject(" ++ o.cls.name ++ ")"

def factsOfHostValue (v : HostValue) : Action HostValueFacts := do
  let object ← v.asObject?.mapM fun o => readObject? o
  return {
    kind := v.kindName, isNull := v.isNull, bool := v.asBool?, int64 := v.asInt64?
    int32 := v.asInt32?, number := v.asNumber?, text := v.asText?
    object := object.join.map objectDebugText
    shown := ← showHost v 4 }

/-- What each value is, and which are equal. -/
def hostValues (ls : List HostLiteral) : List HostValueFacts × List (List Bool) :=
  inFreshSession do
    let vs ← buildHostLiterals ls
    let facts ← vs.mapM fun v => factsOfHostValue v
    let w ← get
    return (facts, square w.same vs)

/-! ## Exceptions -/

structure ExceptionFacts where
  exception : ExceptionView
  debugText : Option String
  innermost : ExceptionView
  isInnermost : Bool
  text : String
  /-- The text behind a location. -/
  located : String

/-- The text of some causes for developers. -/
def debugText? : Cause → Option String
  | .invalidTarget t => some ("InvalidTarget(" ++ Text.quote t ++ ")")
  | .typeMismatch expected got =>
    some ("TypeMismatch \x7b expected: " ++ Text.quote expected ++ ", got: " ++ Text.quote got
      ++ " \x7d")
  | _ => none

/-- What an exception is, with its text behind a location. -/
def exception (spec : ExceptionSpec) (location : String) : ExceptionFacts :=
  inFreshSession do
    let e ← spec.build
    return {
      exception := ← showException e
      debugText := debugText? e.cause
      innermost := ← showException e.innermost
      isInnermost := e.innermost == e
      text := e.text
      located := location ++ e.text }

end Probe

end ScriptBridge
