import ScriptBridge.Probe.Class
import ScriptBridge.Probe.Container
import ScriptBridge.Probe.Value
import ScriptBridge.Script.Scenario
import ScriptBridge.Proofs.Bridge.Handles
import ScriptBridge.Proofs.Bridge.Uncaught
import ScriptBridge.Proofs.Host.Registry
import ScriptBridge.Proofs.Vm.Table
import ScriptBridge.Proofs.Vm.Reference
import ScriptBridge.Proofs.Bridge.Places
import ScriptBridge.Proofs.Bridge.Pushing
import ScriptBridge.Proofs.Bridge.RoundTrip
import ScriptBridge.Proofs.Bridge.TypedRoundTrip
import ScriptBridge.Proofs.Bridge.Isolation
import ScriptBridge.Proofs.Dispatch.Caching
import ScriptBridge.Proofs.Bridge.Subscriptions
import ScriptBridge.Proofs.Bridge.LateClasses
import ScriptBridge.Proofs.Bridge.Blacklist
import ScriptBridge.Proofs.Dispatch.Reentrance
import ScriptBridge.Proofs.Dispatch.Layout
import ScriptBridge.Proofs.Dispatch.Selection
import ScriptBridge.Proofs.Dispatch.Overriding
import ScriptBridge.Proofs.Host.Assignability
import ScriptBridge.Proofs.Dispatch.Collecting
import ScriptBridge.Proofs.Dispatch.Target
import ScriptBridge.Proofs.Bridge.Restoring
import ScriptBridge.Proofs.Bridge.Assignment
import ScriptBridge.Proofs.Dispatch.Signatures
import ScriptBridge.Proofs.Bridge.NativeArrays
import ScriptBridge.Proofs.Vm.OrderedMap
import ScriptBridge.Proofs.Vm.Weakness
import ScriptBridge.Proofs.Vm.Chains
import ScriptBridge.Proofs.Number.IntegerText
import ScriptBridge.Proofs.Vm.Numbering
