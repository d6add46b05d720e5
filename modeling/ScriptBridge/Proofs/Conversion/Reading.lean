import ScriptBridge.Proofs.Conversion.Typing

/-!
# Reading gives conforming values

`Converts x t` says that an action either leaves nothing new behind or gives a value of the type
`t`, together with the cells it made for it. Matching a value chooses a conversion that reads the
type; running such a conversion converts. Arrays are read item by item, so the two are proved
together along the type.
-/

namespace ScriptBridge

/-! ## Outcomes -/

/-- The outcome of reading a value as a type: nothing new, or a conforming value whose references
are new cells or exposed objects. -/
def World.Gives (w : World) (t : HostType) (r : Option HostValue × World) : Prop :=
  match r.1 with
  | none => w.Makes [] [] r.2
  | some v => ∃ N, w.Makes N v.refs r.2 ∧ r.2.Conforms (fun o => .object o ∈ N) t v

/-- The outcome of reading the items of a table. -/
def World.GivesItems (w : World) (e : HostType) (r : Option (List HostValue) × World) : Prop :=
  match r.1 with
  | none => w.Makes [] [] r.2
  | some vs => ∃ N, w.Makes N (vs.flatMap HostValue.refs) r.2 ∧
      ∀ v ∈ vs, r.2.Conforms (fun o => .object o ∈ N) e v

/-- An action reads something as a type. -/
def Converts (x : Action (Option HostValue)) (t : HostType) : Prop :=
  ∀ w : World, w.Sound → w.Gives t (x w)

/-- A reader reads tables as sequences of a type. -/
def ItemReader.Reads (items : ItemReader) (e : HostType) : Prop :=
  ∀ (v : Value) (w : World), w.Sound → w.GivesItems e (items v w)

namespace World

variable {w w₁ w₂ : World} {N refs : List Ref} {e t : HostType}

theorem Gives.after (h : w.Makes [] [] w₁) {r : Option HostValue × World} (h' : w₁.Gives t r) :
    w.Gives t r := by
  obtain ⟨v, w₂⟩ := r
  cases v with
  | none => exact h.after h'
  | some v =>
    obtain ⟨N, hN, hv⟩ := h'
    exact ⟨N, h.after hN, hv⟩

theorem Gives.sound {r : Option HostValue × World} (h : w.Gives t r) : r.2.Sound := by
  obtain ⟨v, w₁⟩ := r
  cases v with
  | none => exact Makes.sound h
  | some v =>
    obtain ⟨N, hN, -⟩ := h
    exact hN.sound

/-- Mentioning an exposed object. -/
theorem Makes.exposed (hw : w.Sound) {o : ObjectRef} (ho : w.Exposes o) :
    w.Makes [] [.object o] w where
  fresh := (Makes.refl hw).fresh
  later := (Makes.refl hw).later
  owns := (Makes.refl hw).owns
  refs r hr := by
    obtain rfl := List.mem_singleton.mp hr
    exact .inr ⟨o, rfl, ho⟩

/-- What was made conforms also after what is made next. -/
theorem Conforms.makes {v : HostValue} (hv : w₁.Conforms (fun o => .object o ∈ N) t v)
    (h : w.Makes N refs w₁) {N' refs' : List Ref} (h' : w₁.Makes N' refs' w₂) {M : List Ref}
    (hM : N ⊆ M) : w₂.Conforms (fun o => .object o ∈ M) t v :=
  hv.later h'.session (fun _ ho => h.objects h' ho) fun _ ho => hM ho

theorem Gives.before {v : Option HostValue} (h : w.Gives t (v, w₁)) (h' : w₁.Makes [] [] w₂) :
    w.Gives t (v, w₂) := by
  cases v with
  | none => exact Makes.before h h'
  | some v =>
    obtain ⟨N, hN, hv⟩ := h
    exact ⟨N, hN.before h', hv.makes hN h' (List.Subset.refl _)⟩

end World

namespace Converts

variable {t : HostType} {α : Type}

protected theorem bind {x : Action α} {f : α → Action (Option HostValue)} (hx : Harmless x)
    (hf : ∀ a, Converts (f a) t) : Converts (x >>= f) t := fun w hw =>
  have h := hx.makes hw
  World.Gives.after h (hf (x w).1 (x w).2 h.sound)

/-- What is done may depend on the world as it is. -/
protected theorem get {f : World → Action (Option HostValue)}
    (h : ∀ w : World, w.Sound → w.Gives t (f w w)) : Converts (get >>= f) t :=
  h

protected theorem none : Converts (pure none) t := fun _ hw => .refl hw

/-- A value without references that conforms in every world. -/
protected theorem some {v : HostValue} (hrefs : v.refs = [])
    (hv : ∀ (w : World) (isNew : ObjectRef → Prop), w.Conforms isNew t v) :
    Converts (pure (some v)) t := by
  intro w hw
  refine ⟨[], ?_, hv w _⟩
  rw [hrefs]
  exact .refl hw

protected theorem null (h : ∀ (w : World) (isNew : ObjectRef → Prop), w.Conforms isNew t .null) :
    Converts (pure (some .null)) t :=
  .some rfl h

/-- What converts to a type without its nullable layer converts to the type. -/
protected theorem of_unwrap {x : Action (Option HostValue)} (h : Converts x t.unwrapNullable) :
    Converts x t := by
  intro w hw
  have h := h w hw
  unfold World.Gives at h ⊢
  cases hv : (x w).1 with
  | none =>
    rw [hv] at h
    exact h
  | some v =>
    rw [hv] at h
    obtain ⟨N, hN, hv⟩ := h
    exact ⟨N, hN, hv.of_unwrap⟩

end Converts

/-! ## Scalars -/

theorem scalarOf?_conforms {v : Value} {t : HostType} {x : HostValue}
    (h : scalarOf? v t = some x) :
    x.refs = [] ∧ ∀ (w : World) (isNew : ObjectRef → Prop), w.Conforms isNew t x := by
  cases t with
  | bool =>
    cases v with
    | boolean b =>
      cases h
      exact ⟨rfl, fun _ _ => ⟨b, rfl⟩⟩
    | _ => cases h
  | f64 =>
    obtain ⟨n, -, rfl⟩ := Option.map_eq_some_iff.mp h
    exact ⟨rfl, fun _ _ => ⟨n, rfl⟩⟩
  | f32 =>
    obtain ⟨n, -, rfl⟩ := Option.map_eq_some_iff.mp h
    exact ⟨rfl, fun _ _ => ⟨_, rfl⟩⟩
  | text =>
    obtain ⟨s, -, rfl⟩ := Option.map_eq_some_iff.mp h
    exact ⟨rfl, fun _ _ => ⟨s, rfl⟩⟩
  | char =>
    obtain ⟨c, -, rfl⟩ := Option.map_eq_some_iff.mp h
    exact ⟨rfl, fun _ _ => ⟨c, rfl⟩⟩
  | int k =>
    obtain ⟨n, -, h⟩ := Option.bind_eq_some_iff.mp h
    obtain ⟨i, hi, h⟩ := Option.bind_eq_some_iff.mp h
    cases h
    exact ⟨rfl, fun _ _ => ⟨i, rfl, (Option.filter_eq_some_iff.mp hi).2⟩⟩
  | _ => cases h

theorem scalarOf?_converts (v : Value) (t : HostType) : Converts (pure (scalarOf? v t)) t := by
  cases h : scalarOf? v t with
  | none => exact .none
  | some x =>
    obtain ⟨hrefs, hx⟩ := scalarOf?_conforms h
    exact .some hrefs hx

/-! ## Objects and handles -/

/-- An object behind a value is exposed. -/
theorem World.exposes_of_objectBehind? {w : World} {v : Value} {o : ObjectRef}
    (h : w.objectBehind? v = some o) : w.Exposes o := by
  obtain ⟨id, -, h⟩ := Option.bind_eq_some_iff.mp h
  obtain ⟨s, hs, ho⟩ := Option.bind_eq_some_iff.mp h
  exact ⟨s, id, hs, ho⟩

theorem World.fittingObject?_eq_some {w : World} {v : Value} {t : HostType} {o : ObjectRef}
    (h : w.fittingObject? v t = some o) :
    w.Exposes o ∧ ∃ cell, w.objects.get? o.index = some cell ∧ w.catalog.fits cell t = true := by
  obtain ⟨ref, href, h⟩ := Option.bind_eq_some_iff.mp h
  obtain ⟨cell, hcell, h⟩ := Option.bind_eq_some_iff.mp h
  obtain ⟨s, hs, h⟩ := Option.bind_eq_some_iff.mp h
  split at h
  · rename_i hfits
    cases h
    exact ⟨exposes_of_objectBehind? href, cell, hcell, catalog_of_some hs ▸ hfits⟩
  · cases h

/-- An exposed object that fits a type conforms to it. -/
theorem World.conforms_of_fits {w : World} {t : HostType} {o : ObjectRef} {cell : HostObject}
    (ho : w.Exposes o) (hcell : w.objects.get? o.index = some cell)
    (hfits : w.catalog.fits cell t = true) (isNew : ObjectRef → Prop) :
    w.Conforms isNew t (.object o) := by
  refine .of_unwrap ?_
  unfold Catalog.fits at hfits
  cases ht : t.unwrapNullable with
  | any => trivial
  | named n =>
    rw [ht] at hfits
    exact .inr ⟨o, cell, rfl, hcell, hfits, .inl ho⟩
  | array e =>
    rw [ht] at hfits
    exact .inr ⟨o, cell, rfl, hcell, beq_iff_eq.mp hfits, .inl ho⟩
  | _ =>
    rw [ht] at hfits
    cases hfits

theorem fittingObject?_converts (v : Value) (t : HostType) :
    Converts (do return (← fittingObject? v t).map .object) t := by
  intro w hw
  show w.Gives t ((w.fittingObject? v t).map HostValue.object, w)
  cases h : w.fittingObject? v t with
  | none => exact .refl hw
  | some o =>
    obtain ⟨ho, cell, hcell, hfits⟩ := World.fittingObject?_eq_some h
    exact ⟨[], .exposed hw ho, World.conforms_of_fits ho hcell hfits _⟩

theorem toHandle_makes {w : World} (hw : w.Sound) (v : Value) :
    w.Makes [.handle (toHandle v w).1] [.handle (toHandle v w).1] (toHandle v w).2 :=
  have hkept : Harmless (do
      push v
      createRef (← popValue)) :=
    .bind (harmless_push v) fun _ => .bind harmless_popValue fun v => harmless_createRef v
  have h := hkept.makes hw
  h.after (World.newHandle_makes h.sound _)

/-- A handle converts to any type that has handles of its kind. -/
theorem toHandle_converts (v : Value) (kind : HandleKind) {t : HostType}
    (ht : ∀ (w : World) (isNew : ObjectRef → Prop) (h : HandleRef),
      w.Conforms isNew t (.handle kind h)) :
    Converts (do return some (.handle kind (← toHandle v))) t :=
  fun _ hw => ⟨_, toHandle_makes hw v, ht _ _ _⟩

/-- The general conversion. -/
theorem toHost_converts {v : Value} {t : HostType} (ht : t.unwrapNullable = .any) :
    Converts (do return some (← toHost v)) t := by
  refine .of_unwrap ?_
  rw [ht]
  have hhandle (kind : HandleKind) :
      Converts (do return some (.handle kind (← toHandle v))) .any :=
    toHandle_converts v kind fun _ _ _ => trivial
  cases v with
  | table t =>
    unfold toHost
    rw [bind_assoc]
    exact hhandle .table
  | function f =>
    unfold toHost
    rw [bind_assoc]
    exact hhandle .function
  | userdata u =>
    unfold toHost
    rw [bind_assoc]
    refine .get fun w => ?_
    cases w.proxyId? (.userdata u) with
    | none =>
      dsimp only
      rw [bind_assoc]
      exact hhandle .userdata w
    | some id =>
      intro hw
      dsimp only
      cases ho : w.machine.session.bind (·.registry.resolve? id) with
      | none => exact ⟨[], .refl hw, trivial⟩
      | some o =>
        obtain ⟨s, hs, ho⟩ := Option.bind_eq_some_iff.mp ho
        exact ⟨[], .exposed hw ⟨s, id, hs, ho⟩, trivial⟩
  | _ => exact .some rfl fun _ _ => trivial

/-! ## New arrays -/

/-- The class of arrays of an element type. -/
def World.arrayClass (w : World) (e : HostType) : Class := (w.catalog.arrayClass e).1

/-- The world in which the class of arrays of an element type is in the catalog. -/
def World.withArrayClass (w : World) (e : HostType) : World :=
  (modifySession (fun s => { s with catalog := (w.catalog.arrayClass e).2 }) w).2

theorem newArray_eq (e : HostType) (items : Array HostValue) (w : World) :
    newArray e items w = newObject (w.arrayClass e) (.array e items) (w.withArrayClass e) :=
  rfl

namespace World

variable {w w₁ : World} {N refs : List Ref} {e t : HostType}

theorem Sound.arrayClass_name (hw : w.Sound) (e : HostType) :
    (w.arrayClass e).name = (HostType.array e).name :=
  Catalog.arrayClass_name hw.catalog_keyed e

theorem withArrayClass_later (hw : w.Sound) {L : List Ref} (hL : w.Owns L) (e : HostType) :
    w.Later L (w.withArrayClass e) := by
  have hsession : (w.withArrayClass e).machine.session = w.machine.session.map fun s =>
      { s with catalog := (w.catalog.arrayClass e).2 } := rfl
  refine .of_sameCells hw hL (fun _ _ => rfl) (fun _ _ => rfl) (fun _ _ h => h) (fun _ h => h)
    (fun _ _ hr => .inl hr) (fun _ hd => .inl hd) ?_ fun s hs => ?_
  · unfold Machine.SessionLater
    rw [hsession]
    cases hs : w.machine.session with
    | none => trivial
    | some s =>
      refine ⟨rfl, rfl, rfl, rfl, rfl, ?_⟩
      rw [catalog_of_some hs]
      exact .array (.refl _) e
  · rw [hsession] at hs
    obtain ⟨s', -, rfl⟩ := Option.map_eq_some_iff.mp hs
    exact hw.catalog_keyed.arrayClass e

/-- A new array over what an earlier step made. -/
theorem Makes.newArray (h : w.Makes N refs w₁) (e : HostType) {items : Array HostValue}
    (hitems : ∀ r ∈ items.toList.flatMap HostValue.refs, r ∈ refs) :
    w.Makes (.object (ScriptBridge.newArray e items w₁).1 :: N)
      [.object (ScriptBridge.newArray e items w₁).1] (ScriptBridge.newArray e items w₁).2 := by
  rw [newArray_eq]
  have hjoin : w₁.Makes [] [] (w₁.withArrayClass e) :=
    .of_later fun _ hL => withArrayClass_later h.sound hL e
  exact (h.before hjoin).newObject _ _ fun r hr => .inl (hitems r hr)

/-- What a new array is. -/
theorem newArray_cell (w : World) (e : HostType) (items : Array HostValue) :
    (newArray e items w).2.objects.get? (newArray e items w).1.index =
      some ⟨w.arrayClass e, .array e items⟩ := by
  rw [newArray_eq]
  exact (Store.get?_add _ _ _).trans (if_pos rfl)

/-- A new array leaves the objects there were. -/
theorem newArray_objects {o : ObjectRef} (ho : ¬ w.IsUnmade (.object o)) (e : HostType)
    (items : Array HostValue) :
    (newArray e items w).2.objects.get? o.index = w.objects.get? o.index :=
  Store.get?_add_of_lt _ _ (Nat.lt_of_not_le ho)

theorem newArray_session (hw : w.Sound) (e : HostType) (items : Array HostValue) :
    w.machine.SessionLater (newArray e items w).2.machine :=
  (withArrayClass_later hw w.owns_nil e).session

/-- A new array of conforming items conforms to the array type. -/
theorem Makes.newArray_conforms (h : w.Makes N refs w₁) {items : Array HostValue}
    (hconforms : ∀ v ∈ items.toList, w₁.Conforms (fun o => .object o ∈ N) e v) :
    (ScriptBridge.newArray e items w₁).2.Conforms
      (fun o => .object o ∈ .object (ScriptBridge.newArray e items w₁).1 :: N) (.array e)
      (.object (ScriptBridge.newArray e items w₁).1) := by
  have hmade (o : ObjectRef) (ho : w₁.Exposes o ∨ .object o ∈ N) : ¬ w₁.IsUnmade (.object o) := by
    obtain ho | ho := ho
    · exact h.sound.exposed o ho
    · exact (h.owns [] w.owns_nil).made _ (List.mem_append_left _ ho)
  refine .inr ⟨_, _, rfl, newArray_cell w₁ e items, h.sound.arrayClass_name e,
    .inr ⟨List.mem_cons_self, items, rfl, fun v hv => ?_⟩⟩
  exact (hconforms v hv).later (newArray_session h.sound e items)
    (fun o ho => newArray_objects (hmade o ho) e items) fun _ => List.mem_cons_of_mem _

end World

/-! ## Adapters -/

section

variable {t : HostType} {cls : Class}

/-- An object that was just made for a class conforms to the name of the class. -/
theorem World.conforms_newObject (ht : t.unwrapNullable = .named cls.name) (w : World)
    (data : ObjectData) {isNew : ObjectRef → Prop} (hnew : isNew (newObject cls data w).1) :
    (newObject cls data w).2.Conforms isNew t (.object (newObject cls data w).1) := by
  refine .of_unwrap ?_
  rw [ht]
  exact .inr ⟨_, ⟨cls, data⟩, rfl, (Store.get?_add _ _ _).trans (if_pos rfl),
    Catalog.isAssignable_self _ _, .inr hnew⟩

/-- What makes an adapter of a handle: it conforms, or the handle was let go of. -/
def Adapts (make : HandleRef → Action (Except Cause ObjectRef)) (t : HostType) : Prop :=
  ∀ (h : HandleRef) (w w₁ : World), w.Makes [.handle h] [.handle h] w₁ →
    w.Gives t (adapted (make h w₁).1, (make h w₁).2)

theorem adapts_newObject (ht : t.unwrapNullable = .named cls.name) (data : HandleRef → ObjectData)
    (hdata : ∀ h, ∀ r ∈ (data h).refs, r = .handle h ∨ ∃ c, r = .cell c) :
    Adapts (fun h => do return .ok (← newObject cls (data h))) t := by
  intro h w w₁ hmade
  refine ⟨_, hmade.newObject cls (data h) fun r hr => ?_, ?_⟩
  · exact (hdata h r hr).imp_left List.mem_singleton.mpr
  · exact World.conforms_newObject ht w₁ _ List.mem_cons_self

theorem adapts_refused (cause : Cause) :
    Adapts (fun h => do
      discard [.handle h]
      return .error cause) t :=
  fun _ _ _ hmade => hmade.discard

theorem adapts_makeDelegate (ht : t.unwrapNullable = .named cls.name) :
    Adapts (makeDelegate cls) t := by
  intro h w w₁ hmade
  unfold makeDelegate
  cases cls.invokeMethod? with
  | none => exact adapts_refused _ h w w₁ hmade
  | some signature =>
    refine adapts_newObject ht (fun h => .delegate (.script h signature)) ?_ h w w₁ hmade
    intro h r hr
    obtain rfl | hr := List.mem_cons.mp hr
    · exact .inl rfl
    · obtain ⟨c, -, rfl⟩ := List.mem_map.mp hr
      exact .inr ⟨c, rfl⟩

theorem adapts_makeInterface (ht : t.unwrapNullable = .named cls.name) :
    Adapts (makeInterface cls) t := by
  intro h w w₁ hmade
  unfold makeInterface
  split
  · refine adapts_newObject ht .scriptTable (fun h r hr => ?_) h w w₁ hmade
    exact .inl (List.mem_singleton.mp hr)
  · exact adapts_refused _ h w w₁ hmade

theorem Adapts.of_session {make : Session → HandleRef → Action (Except Cause ObjectRef)}
    (hmake : ∀ s, Adapts (make s) t) : Adapts (fun h => do make (← readSession) h) t :=
  fun h w w₁ hmade => hmake _ h w w₁ hmade

theorem adapts_delegateFor (ht : t.unwrapNullable = .named cls.name) :
    Adapts (delegateFor cls) t := by
  refine .of_session fun s => ?_
  by_cases hs : (s.adapters == .refuse) = true
  · simp only [hs, if_true]
    exact adapts_refused _
  · simp only [hs]
    exact adapts_makeDelegate ht

theorem adapts_interfaceFor (ht : t.unwrapNullable = .named cls.name) :
    Adapts (interfaceFor cls) t := by
  refine .of_session fun s => ?_
  by_cases hs : (s.adapters == .refuse) = true
  · simp only [hs, if_true]
    exact adapts_refused _
  · simp only [hs]
    exact adapts_makeInterface ht

/-- An adapter of a value. -/
theorem adapted_converts {make : HandleRef → Action (Except Cause ObjectRef)}
    (hmake : Adapts make t) (v : Value) :
    Converts (do return adapted (← make (← toHandle v))) t :=
  fun w hw => hmake _ w _ (toHandle_makes hw v)

end

/-! ## Running a conversion -/

theorem conforms_null_of_named {t : HostType} {n : String} (h : t.unwrapNullable = .named n)
    (w : World) (isNew : ObjectRef → Prop) : w.Conforms isNew t .null := by
  refine .of_unwrap ?_
  rw [h]
  exact .inl rfl

theorem conforms_null_of_array {t e : HostType} (h : t.unwrapNullable = .array e)
    (w : World) (isNew : ObjectRef → Prop) : w.Conforms isNew t .null := by
  refine .of_unwrap ?_
  rw [h]
  exact .inl rfl

/-- A conversion that is not for scalars or `any` reads nil as null. -/
theorem converts_nil_or {t : HostType} {x : Action (Option HostValue)} (v : Value)
    (hnull : ∀ (w : World) (isNew : ObjectRef → Prop), w.Conforms isNew t .null)
    (hx : Converts x t) : Converts (if v.isNil then pure (some .null) else x) t := by
  split
  · exact .null hnull
  · exact hx

/-- A table read item by item into a new array. -/
theorem arrayTable_converts {items : ItemReader} {t e : HostType} (hitems : items.Reads e)
    (ht : t.unwrapNullable = .array e) (v : Value) :
    Converts (do
      match ← items v with
      | some converted => return some (.object (← newArray e converted.toArray))
      | none => return none) t := by
  refine .of_unwrap ?_
  rw [ht]
  intro w hw
  have h := hitems v w hw
  cases hr : items v w with | mk r w₁
  rw [bind_of_eq hr]
  rw [hr] at h
  cases r with
  | none => exact h
  | some vs =>
    obtain ⟨N, hN, hvs⟩ := h
    exact ⟨_, hN.newArray e fun _ hr => hr, hN.newArray_conforms hvs⟩

/-- A conversion that reads a type converts to it. -/
theorem readAs_converts {items : ItemReader} {c : Conversion} {t : HostType} (hc : c.Reads t)
    (hitems : ∀ e, c = .arrayTable e → items.Reads e) (v : Value) :
    Converts (readAs items c v) t := by
  cases hc with
  | scalar h =>
    unfold readAs
    dsimp only
    split
    · rename_i hnil
      exact .null fun _ _ => World.conforms_null_of_unwrap (Bool.and_eq_true_iff.mp hnil).2
    · exact .of_unwrap (scalarOf?_converts v _)
  | any h => exact toHost_converts h
  | handle h =>
    rename_i k
    have hconforms (w : World) (isNew : ObjectRef → Prop) (x : HostValue)
        (hx : x = .null ∨ ∃ a, x = .handle k a) : w.Conforms isNew t x := by
      refine .of_unwrap ?_
      rw [h]
      exact hx
    refine converts_nil_or v (fun w isNew => hconforms w isNew _ (.inl rfl)) ?_
    split
    · exact toHandle_converts v k fun w isNew a => hconforms w isNew _ (.inr ⟨a, rfl⟩)
    · exact .none
  | «class» h =>
    refine converts_nil_or v (conforms_null_of_named h) (.of_unwrap ?_)
    rw [h]
    exact fittingObject?_converts v _
  | array h =>
    refine converts_nil_or v (conforms_null_of_array h) (.of_unwrap ?_)
    rw [h]
    exact fittingObject?_converts v _
  | arrayTable h =>
    exact converts_nil_or v (conforms_null_of_array h) (arrayTable_converts (hitems _ rfl) h v)
  | delegate h =>
    refine converts_nil_or v (conforms_null_of_named h) ?_
    cases v with
    | function f => exact adapted_converts (adapts_delegateFor h) _
    | _ => exact .none
  | interface h =>
    refine converts_nil_or v (conforms_null_of_named h) ?_
    cases v with
    | table f => exact adapted_converts (adapts_interfaceFor h) _
    | _ => exact .none

/-! ## Choosing a conversion -/

/-- An action chooses a conversion that reads a type, if it chooses one. -/
abbrev Chooses (x : Action (Option Conversion)) (t : HostType) : Prop :=
  Ensures x fun r => ∀ c, r = some c → c.Reads t

namespace Chooses

variable {t : HostType} {α : Type}

protected theorem none : Chooses (pure none) t := .pure fun _ h => nomatch h

protected theorem some {c : Conversion} (h : c.Reads t) : Chooses (pure (some c)) t :=
  .pure fun _ hc => Option.some.inj hc ▸ h

/-- The conversion of the type itself, if a test on the value succeeds. -/
protected theorem map (test : Option α) : Chooses (pure (test.map fun _ => t.conversion)) t := by
  cases test with
  | none => exact .none
  | some a => exact .some t.conversion_reads

protected theorem bind {x : Action α} {f : α → Action (Option Conversion)} (hx : Harmless x)
    (hf : ∀ a, Chooses (f a) t) : Chooses (x >>= f) t :=
  (Ensures.of_harmless hx).bind fun a _ => hf a

protected theorem session {f : Session → Action (Option Conversion)}
    (hf : ∀ s : Session, s.catalog.IsKeyed → Chooses (f s) t) : Chooses (readSession >>= f) t :=
  fun w hw => hf _ hw.catalog_keyed w hw

end Chooses

theorem chooses_matchObject (t : HostType) (v : Value) : Chooses (matchObject t v) t :=
  .bind (harmless_fittingObject? v t) fun found => .map found

theorem itemsConvert_ensures {items : ItemReader} {e : HostType} (hitems : items.Reads e)
    (v : Value) : Ensures (itemsConvert items v) fun _ => True := by
  intro w hw
  have h := hitems v w hw
  unfold itemsConvert
  cases hr : items v w with | mk r w₁
  rw [bind_of_eq hr]
  rw [hr] at h
  cases r with
  | none => exact ⟨h, trivial⟩
  | some vs =>
    obtain ⟨N, hN, -⟩ := h
    exact ⟨hN.release, trivial⟩

theorem chooses_matchArray {items : ItemReader} {t e : HostType} (hitems : items.Reads e)
    (ht : t.unwrapNullable = .array e) (v : Value) : Chooses (matchArray items e v) t := by
  refine .bind (harmless_objectBehind? v) fun o => ?_
  split
  · refine (itemsConvert_ensures hitems v).bind fun accepted _ => ?_
    split
    · exact Chooses.some (.arrayTable ht)
    · exact Chooses.none
  · refine .bind (harmless_fittingObject? v _) fun found => ?_
    cases found with
    | none => exact .none
    | some o => exact .some (.array ht)

theorem chooses_matchClass {t : HostType} {n : String} (ht : t.unwrapNullable = .named n)
    (v : Value) : Chooses (matchClass t n v) t := by
  refine .session fun s hs => ?_
  have hname {cls : Class} (hfind : s.catalog.find? n = some cls) :
      t.unwrapNullable = .named cls.name := by
    rw [ht, hs n cls hfind]
  split
  · rename_i cls f hfind
    split
    · exact .some (.delegate (hname hfind))
    · exact chooses_matchObject t _
  · rename_i cls f hfind
    split
    · refine .bind (harmless_fittingObject? _ t) fun found => ?_
      cases found with
      | none => exact .some (.interface (hname hfind))
      | some o => exact .some t.conversion_reads
    · exact chooses_matchObject t _
  · exact chooses_matchObject t _

/-- Matching chooses a conversion that reads the type. -/
theorem chooses_matchType {items : ItemReader} {t : HostType}
    (hitems : ∀ e, t.unwrapNullable = .array e → items.Reads e) (v : Value) :
    Chooses (matchType items t v) t := by
  unfold matchType
  split
  · exact .some t.conversion_reads
  · cases ht : t.unwrapNullable with
    | any => exact .some (.any ht)
    | void => exact .none
    | handle k =>
      dsimp only
      split
      · exact .some (.handle ht)
      · exact .none
    | array e =>
      dsimp only
      split
      · exact .some t.conversion_reads
      · exact chooses_matchArray (hitems e ht) ht v
    | named n =>
      dsimp only
      split
      · exact .some t.conversion_reads
      · exact chooses_matchClass ht v
    | _ => exact .map _

/-! ## Reading items -/

theorem noItems_reads (e : HostType) : ItemReader.Reads noItems e := fun _ _ hw => .refl hw

/-- Items that were converted so far, and cells made for them. -/
structure World.Converted (w : World) (e : HostType) (N : List Ref) (done : List HostValue)
    (w₁ : World) : Prop where
  makes : w.Makes N (done.flatMap HostValue.refs) w₁
  conforms : ∀ v ∈ done, w₁.Conforms (fun o => .object o ∈ N) e v

theorem World.Converted.nil {w : World} (hw : w.Sound) (e : HostType) : w.Converted e [] [] w where
  makes := .refl hw
  conforms _ hv := absurd hv List.not_mem_nil

/-- One more item. -/
theorem World.Converted.append {w w₁ w₂ : World} {e : HostType} {N M : List Ref}
    {done : List HostValue} {v : HostValue} (h : w.Converted e N done w₁)
    (hmakes : w₁.Makes M v.refs w₂) (hv : w₂.Conforms (fun o => .object o ∈ M) e v) :
    w.Converted e (M ++ N) (done ++ [v]) w₂ where
  makes := by
    rw [List.flatMap_append, List.flatMap_singleton]
    exact h.makes.trans hmakes
  conforms x hx := by
    obtain hx | hx := List.mem_append.mp hx
    · exact (h.conforms x hx).makes h.makes hmakes (List.subset_append_right _ _)
    · obtain rfl := List.mem_singleton.mp hx
      exact hv.later (.refl _) (fun _ _ => rfl) fun _ ho => List.mem_append_left _ ho

theorem World.Converted.after {w w₁ w₂ : World} {e : HostType} {N : List Ref}
    {done : List HostValue} (h : w.Converted e N done w₁) (h' : w₁.Makes [] [] w₂) :
    w.Converted e N done w₂ where
  makes := h.makes.before h'
  conforms x hx := (h.conforms x hx).makes h.makes h' (List.Subset.refl _)

/-- A conversion between harmless steps. -/
theorem Converts.between {convert : Value → Action (Option HostValue)} {t : HostType}
    (hconvert : ∀ v, Converts (convert v) t) {read : Action Value} {done : Action Unit}
    (hread : Harmless read) (hdone : Harmless done) :
    Converts (do
      let item ← convert (← read)
      done
      return item) t := by
  intro w hw
  have hmakes := hread.makes hw
  have hitem := hconvert (read w).1 (read w).2 hmakes.sound
  cases hr : convert (read w).1 (read w).2 with | mk item w₂
  rw [hr] at hitem
  rw [bind_of_eq (y := read) rfl, bind_of_eq hr]
  exact .after hmakes (hitem.before (hdone.makes hitem.sound))

/-- An item converts as its value does, on the stack or not. -/
theorem convertItem_converts {convert : Value → Action (Option HostValue)} {e : HostType}
    (hconvert : ∀ v, Converts (convert v) e) (t : TableRef) (position : Int) :
    Converts (convertItem convert t position) e := by
  have hread : Harmless (do
      push (← rawGetInt t position)
      valueAt (-1)) :=
    .bind (harmless_rawGetInt t position) fun v =>
      .bind (harmless_push v) fun _ => harmless_valueAt _
  have hdone : Harmless (do discard (← popValue).refs) :=
    .bind harmless_popValue fun v => harmless_discardValue v
  exact .between hconvert hread hdone

theorem convertItems_gives {convert : Value → Action (Option HostValue)} {e : HostType}
    (hconvert : ∀ v, Converts (convert v) e) (t : TableRef) (n : Nat) (position : Int)
    {w w₁ : World} {N : List Ref} {done : List HostValue} (h : w.Converted e N done w₁) :
    w.GivesItems e (convertItems convert t n position done w₁) := by
  induction n generalizing position w₁ N done with
  | zero => exact ⟨N, h.makes, h.conforms⟩
  | succ n ih =>
    unfold convertItems
    have hitem := convertItem_converts hconvert t position w₁ h.makes.sound
    cases hr : convertItem convert t position w₁ with | mk r w₂
    rw [bind_of_eq hr]
    rw [hr] at hitem
    cases r with
    | some item =>
      obtain ⟨M, hmakes, hv⟩ := hitem
      exact ih _ (h.append hmakes hv)
    | none => exact (h.makes.before hitem).release

theorem readItems_reads {convert : Value → Action (Option HostValue)} {e : HostType}
    (hconvert : ∀ v, Converts (convert v) e) : ItemReader.Reads (readItems convert) e := by
  intro v w hw
  cases v with
  | table t =>
    have hlength := (harmless_rawLength (.table t)).makes hw
    unfold readItems
    cases hr : rawLength (.table t) w with | mk n w₁
    dsimp only
    rw [bind_of_eq hr]
    rw [hr] at hlength
    exact convertItems_gives hconvert t n 1 ((World.Converted.nil hw e).after hlength)
  | _ => exact .refl hw

/-! ## Reading as a type -/

theorem convertWith_converts {items : ItemReader} {t : HostType}
    (hitems : ∀ e, t.unwrapNullable = .array e → items.Reads e) (v : Value) :
    Converts (convertWith items t v) t := by
  intro w hw
  obtain ⟨hmakes, hreads⟩ := chooses_matchType hitems v w hw
  unfold convertWith
  cases hr : matchType items t v w with | mk c w₁
  rw [bind_of_eq hr]
  rw [hr] at hmakes hreads
  cases c with
  | none => exact hmakes
  | some c =>
    refine World.Gives.after hmakes (readAs_converts (hreads c rfl) ?_ v w₁ hmakes.sound)
    rintro e rfl
    cases hreads _ rfl with
    | arrayTable he => exact hitems e he

/-- A value read as a type conforms to it. -/
theorem asType_converts (t : HostType) (v : Value) : Converts (asType t v) t := by
  unfold asType
  split
  · refine convertWith_converts (fun e he => ?_) _
    cases he
    exact readItems_reads fun v => asType_converts _ v
  · refine convertWith_converts (fun e he => ?_) _
    cases he
    exact readItems_reads fun v => asType_converts _ v
  · exact convertWith_converts (fun e _ => noItems_reads e) _

theorem tableToArray_reads (e : HostType) : ItemReader.Reads (tableToArray e) e :=
  readItems_reads (asType_converts e)

/-- Checking a value against a type chooses a conversion that reads the type. -/
theorem chooses_checkType (t : HostType) (v : Value) : Chooses (checkType t v) t := by
  refine chooses_matchType (fun e he => ?_) v
  unfold itemsFor
  rw [he]
  exact tableToArray_reads e

/-- Running a conversion that reads a type converts to it, whatever value it was chosen for. -/
theorem extract_converts {c : Conversion} {t : HostType} (hc : c.Reads t) (v : Value) :
    Converts (c.extract v) t := by
  unfold Conversion.extract
  split
  · rename_i e
    exact readAs_converts hc (fun _ he => by cases he; exact tableToArray_reads e) v
  · exact readAs_converts hc (fun e _ => noItems_reads e) v

end ScriptBridge
