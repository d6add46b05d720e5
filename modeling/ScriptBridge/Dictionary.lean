/-!
# Dictionaries

Finite maps as lists of pairs with distinct keys, in order of first insertion.
-/

namespace ScriptBridge

abbrev Dictionary (α β : Type) := List (α × β)

namespace Dictionary

variable {α β : Type} [DecidableEq α]

def get? (d : Dictionary α β) (k : α) : Option β := (d.find? (·.1 = k)).map (·.2)

/-- Puts a value under a key, in place of what was there. -/
def insert (d : Dictionary α β) (k : α) (v : β) : Dictionary α β :=
  match d with
  | [] => [(k, v)]
  | (k', v') :: rest => if k' = k then (k, v) :: rest else (k', v') :: insert rest k v

def erase (d : Dictionary α β) (k : α) : Dictionary α β := d.filter (·.1 ≠ k)

def keys (d : Dictionary α β) : List α := d.map (·.1)

end Dictionary

end ScriptBridge
