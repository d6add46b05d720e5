import ScriptBridge.Vm.Access

/-!
# References

The host holds values of a machine by number: the registry table keeps them under positive
integers. Released numbers form a list through the table itself, headed by a field of it, and
are given out again first.
-/

namespace ScriptBridge

namespace Reference

/-- The field of the registry table with the head of the list of free numbers. -/
def freeField : String := "__free_refs"

/-- The reference that stands for nil. -/
def nil : Int := -1

/-- The free number at the head of the list; zero or less when the list is empty. -/
def head (v : Value) : Int :=
  match v.toNumber? with
  | some n => n.clamp IntegerKind.i32.lo IntegerKind.i32.hi
  | none => 0

end Reference

/-- A number no value is kept under: the head of the free list, or a new one. -/
def takeReference : Action Int := do
  let w ← get
  let registry := w.machine.registry
  let free := Reference.head (w.fieldOf registry Reference.freeField)
  if 0 < free then
    rawSetField registry Reference.freeField (← rawGetInt registry free)
    return free
  else
    let r := w.machine.nextRef
    modifyMachine fun m => { m with nextRef := r + 1 }
    return r

/-- Keeps a value in the registry table and gives its number. -/
def createRef (v : Value) : Action Int := do
  if v.isNil then return Reference.nil
  let r ← takeReference
  rawSetInt (← readMachine).registry r v
  return r

/-- The value kept under a number. -/
def readRef (r : Int) : Action Value := do
  if r == Reference.nil then return .nil
  rawGetInt (← readMachine).registry r

/-- Puts a number on the free list. -/
def releaseRef (r : Int) : Action Unit := do
  if 0 < r then
    let registry := (← readMachine).registry
    let free ← rawGetField registry Reference.freeField
    rawSetInt registry r (if free.isNil then .number Number.zero else free)
    rawSetField registry Reference.freeField (.number (Number.ofInt r))

end ScriptBridge
