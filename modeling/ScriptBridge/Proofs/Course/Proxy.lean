import ScriptBridge.Bridge.Proxy
import ScriptBridge.Proofs.Course.Host

/-!
# Proxies under a regime

Where values may stay on the stack, host values can be pushed. The handlers of proxies and the
helper functions that call no script then only read, convert, write storage and push their results,
and if members may be looked up too they are orderly.
-/

namespace ScriptBridge

variable {R : Regime} [R.Pushes]

/-! ## Pushing -/

theorem orderly_pushHost (v : HostValue) : Orderly R (pushHost v) :=
  .bind (orderly_toValue v) fun _ => orderly_push _

theorem orderly_pushObject (o : ObjectRef) : Orderly R (pushObject o) :=
  .bind (orderly_objectValue o) fun _ => orderly_push _

theorem orderly_pushType (cls : Class) : Orderly R (pushType cls) :=
  .bind (orderly_typeValue cls) fun _ => orderly_push _

theorem orderly_pushHandle (h : HandleRef) : Orderly R (pushHandle h) :=
  .bind (orderly_handleValue h) fun _ => orderly_push _

/-! ## Proxies -/

theorem orderly_pushNewObject (o : ObjectRef) : Orderly R (pushNewObject o) :=
  .bind (orderly_pushObject o) fun _ => orderly_discard _

theorem orderly_pushMember (target : Option ObjectRef) (found : FoundMember) :
    Orderly R (pushMember target found) := by
  have hread (g : Getter) : Alike R (do pushHost (← g.run target) : Host Unit)
      (do pushHost (← g.run target)) :=
    .bind (orderly_getterRun g target) fun _ => .lift (orderly_pushHost _)
  unfold pushMember
  cases found with
  | method d f b => exact .lift (orderly_push _)
  | field f =>
    dsimp only
    cases f.get with
    | none => exact orderly_throwCause _
    | some g => exact hread g
  | property f =>
    dsimp only
    cases f.get with
    | none => exact orderly_throwCause _
    | some g => exact hread g
  | event e =>
    exact .bind (.lift (orderly_newObject _ _)) fun _ => .lift (orderly_pushNewObject _)
  | nested cls =>
    cases cls with
    | none => exact .lift (orderly_push _)
    | some cls => exact .lift (orderly_pushType cls)

theorem orderly_pushElement (o : HostObject) : Orderly R (pushElement o) := by
  refine .bind (.lift (orderly_valueAt 2)) fun v => ?_
  split
  · exact .bind (orderly_arrayPosition _) fun _ =>
      .bind (.lift (orderly_pushHost _)) fun _ => .pure _
  · exact .pure _

theorem orderly_pushIndexed (ref : ObjectRef) (o : HostObject) :
    Orderly R (pushIndexed ref o) := by
  refine .bind (.lift (orderly_indexerClass? _)) fun cls => ?_
  cases cls.bind (·.indexer) with
  | none => exact .pure _
  | some indexer =>
    dsimp only
    split
    · exact .bind (orderly_convertSlot _ _) fun key =>
        .bind (orderly_indexerGet ref key) fun _ =>
          .bind (.lift (orderly_discard _)) fun _ =>
            .bind (.lift (orderly_pushHost _)) fun _ => .pure _
    · exact .pure _

theorem orderly_objectIndex [R.Learns] : Orderly R objectIndex := by
  have hdone : Orderly R (do
      (pure () : Host Unit)
      return 1 : Host Nat) := .bind (.pure ()) fun _ => .pure 1
  refine .bind orderly_selfObject fun ⟨ref, o⟩ =>
    .bind (.lift (orderly_namedMember? _ _)) fun named => ?_
  cases named with
  | some found => exact .bind (orderly_pushMember _ _) fun _ => .pure 1
  | none =>
    refine .bind (orderly_pushElement o) fun element => ?_
    dsimp only
    split
    · exact hdone
    · refine .bind (orderly_pushIndexed ref o) fun indexed => ?_
      split
      · exact hdone
      · exact .bind (.lift (orderly_keyName 2)) fun _ =>
          .bind (orderly_throwCause _) fun _ => .pure 1

theorem orderly_proxyText : Orderly R proxyText := by
  refine .bind (.lift (orderly_valueAt 1)) fun v =>
    .bind (.lift (orderly_objectBehind? v)) fun ref => ?_
  cases ref with
  | none => exact .bind (.lift (orderly_push _)) fun _ => .pure 1
  | some ref =>
    exact .bind (.lift (orderly_readObject? ref)) fun _ =>
      .bind (.lift (orderly_push _)) fun _ => .pure 1

theorem orderly_typeIndex [R.Learns] : Orderly R typeIndex := by
  refine .bind orderly_selfType fun cls =>
    .bind (.lift (orderly_valueAt 2)) fun v => ?_
  dsimp only
  split
  · exact .bind (.lift orderly_readSession) fun _ =>
      .bind (orderly_arrayLength _ _) fun _ =>
        .bind (.lift (orderly_newArray _ _)) fun _ =>
          .bind (.lift (orderly_pushNewObject _)) fun _ => .pure 1
  · refine .bind (.lift (orderly_keyName 2)) fun name =>
      .bind (.lift (orderly_member? _ _ _)) fun found => ?_
    cases found with
    | none => exact orderly_throwCause _
    | some found => exact .bind (orderly_pushMember _ _) fun _ => .pure 1

theorem orderly_errorText : Orderly R errorText := by
  refine .bind .get fun w => ?_
  dsimp only
  split
  · split <;> exact .bind (orderly_push _) fun _ => .pure 1
  · exact .bind (orderly_push _) fun _ => .pure 1

/-! ## Helper functions -/

theorem orderly_importType : Orderly R importType := by
  refine .bind (.lift (orderly_valueAt 1)) fun v =>
    .bind (.lift orderly_readSession) fun s => ?_
  dsimp only
  split
  · exact .bind (.lift (orderly_pushType _)) fun _ => .pure 1
  · exact .bind (.lift (orderly_push _)) fun _ => .pure 1

theorem orderly_methodBySignature : Orderly R methodBySignature := by
  refine .bind orderly_classArgument fun ⟨cls, target⟩ =>
    .bind (.lift (orderly_valueAt 2)) fun v => ?_
  split
  · refine .bind (.lift (orderly_signatureArguments 3)) fun signature =>
      .bind (.lift (orderly_bindBySignature _ _ _ _)) fun d => ?_
    cases d with
    | error cause => exact orderly_throwCause _
    | ok d =>
      exact .bind (.lift (orderly_functionOf _ d)) fun _ =>
        .bind (.lift (orderly_push _)) fun _ => .pure 1
  · exact .bind (.lift orderly_readMachine) fun _ => orderly_throwCause _

theorem orderly_constructorBySignature :
    Orderly R constructorBySignature := by
  refine .bind orderly_classArgument fun ⟨cls, _⟩ =>
    .bind (.lift (orderly_signatureArguments 2)) fun signature => ?_
  split
  · exact orderly_throwCause _
  · exact .bind (.lift (orderly_newDispatcher _)) fun d =>
      .bind (.lift (orderly_functionOf _ d)) fun _ =>
        .bind (.lift (orderly_push _)) fun _ => .pure 1

end ScriptBridge
