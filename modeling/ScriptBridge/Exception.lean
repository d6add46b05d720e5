/-!
# Exceptions of the host

An exception is an instance: it has an identity besides its cause, and passing it on keeps both.
A cause may wrap the exception of an inner call; `Exception.innermost` strips those layers.
-/

namespace ScriptBridge

/-- Why an exception was raised. -/
inductive Cause where
  /-- An exception of a host body. -/
  | message (text : String)
  /-- No candidate accepts the arguments. -/
  | noOverload (callable : String)
  /-- An argument, counted from one, no longer converts. -/
  | invalidArgument (callable : String) (position : Nat)
  | memberNotFound (type member : String)
  | invalidTarget (text : String)
  | invalidAssignment (text : String)
  | staticFromInstance (type member : String)
  | typeMismatch (expected got : String)
  /-- A host body passes on the exception of a callable it invoked. -/
  | duringInvoke (callable : String) (innerId : Nat) (inner : Cause)
  /-- An error of a script that no host code raised. -/
  | script (message location : String)
deriving DecidableEq, Inhabited, Repr

/-- An exception instance. -/
structure Exception where
  id : Nat
  cause : Cause
deriving DecidableEq, Inhabited, Repr

namespace Cause

/-- The text of an exception. -/
def text : Cause → String
  | message t => t
  | noOverload callable => "invalid arguments to " ++ callable
  | invalidArgument callable position =>
    "argument number " ++ toString position ++ " is invalid for " ++ callable
  | memberNotFound type member =>
    "'" ++ type ++ "' does not contain a definition for '" ++ member ++ "'"
  | invalidTarget t => t
  | invalidAssignment t => t
  | staticFromInstance type member =>
    "static member '" ++ member ++ "' of '" ++ type ++ "' cannot be accessed through an instance"
  | typeMismatch expected got => "type mismatch: expected " ++ expected ++ ", got " ++ got
  | duringInvoke callable _ inner => "exception in " ++ callable ++ ": " ++ inner.text
  | script words location => location ++ words

/-- The exception behind all layers around a cause of the instance `id`. -/
def innermost (id : Nat) : Cause → Exception
  | duringInvoke _ innerId inner => inner.innermost innerId
  | cause => ⟨id, cause⟩

end Cause

namespace Exception

def text (e : Exception) : String := e.cause.text

/-- The exception that was raised first, without the layers callers put around it. -/
def innermost (e : Exception) : Exception := e.cause.innermost e.id

end Exception

end ScriptBridge
