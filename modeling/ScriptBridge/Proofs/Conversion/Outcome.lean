import ScriptBridge.Proofs.Conversion.Choice
import ScriptBridge.Proofs.Conversion.Tidy

/-!
# Reading is told beforehand

Matching an array reads its items and lets go of them, and the conversion reads them once more. That
both come to the same is not a matter of one world: each reading makes references, objects and
handles. It holds because reading disturbs nothing, so that it can be told from the world before
what every later reading comes to.

1. `Views.pick`, `Views.fulfils`, `Undisturbed.views`, `Undisturbed.item`: what is seen through a
   value is the same in every undisturbed world.
2. `World.Foresees`: what an action gives is known beforehand, with rules by its shape.
3. `World.reads` says of a type and a value whether reading gives a value, items included, and
   `foresees_asType`, `foresees_checkType`, `foresees_extract` that it does so.
-/

namespace ScriptBridge

namespace World

variable (w : World)

/-- What is taken for a proxy: the value itself, or the `__index` of a table. -/
def shown (v : Value) : Value :=
  match v with
  | .table _ => w.metafieldOf v "__index"
  | _ => v

theorem objectBehind?_eq (v : Value) : w.objectBehind? v =
    (w.proxyId? (w.shown v)).bind fun id =>
      (w.machine.session.map Session.registry).bind (·.resolve? id) := by
  simp only [Option.bind_map]
  rfl

/-- The item of a table at a position. -/
def item (t : TableRef) (position : Int) : Value := (w.table t).getInt w.isLive position

/-- The items of a table, from 1 up to its length. -/
def items (t : TableRef) : List Value :=
  (List.range' 1 ((w.table t).length w.isLive)).map fun i : Nat => w.item t i

end World

/-! ## What is seen through a value -/

/-- A later world in which the same object is seen through a value. -/
structure World.Views (w w' : World) (v : Value) : Prop where
  session : w.machine.SessionLater w'.machine
  objects : ∀ o, w.Exposes o → w'.objects.get? o.index = w.objects.get? o.index
  behind : w'.objectBehind? v = w.objectBehind? v

namespace World.Views

variable {w w' : World} {v : Value} (h : w.Views w' v)
include h

theorem builds : w'.builds = w.builds := by
  have hadapters := h.session.map_eq fun s s' hl => hl.adapters
  unfold World.builds
  show ((w'.machine.session.getD default).adapters != _) =
    ((w.machine.session.getD default).adapters != _)
  rw [← Option.getD_map Session.adapters, hadapters, Option.getD_map]

theorem fittingObject? (t : HostType) : w'.fittingObject? v t = w.fittingObject? v t := by
  unfold World.fittingObject?
  rw [h.behind]
  cases hbehind : w.objectBehind? v with
  | none => rfl
  | some o =>
    -- An object behind a proxy is exposed, and the session still fits it to the same types.
    have hexposed := exposes_of_objectBehind? hbehind
    have ⟨s, id, hs, _⟩ := hexposed
    obtain ⟨s', hs', hl⟩ := h.session.of_some hs
    simp only [Option.bind_eq_bind, Option.bind_some]
    rw [h.objects o hexposed, hs, hs']
    simp only [Option.bind_some, Catalog.fits_grows hl.catalog]

theorem pickObject (t : HostType) : w'.pickObject t v = w.pickObject t v := by
  unfold World.pickObject
  rw [h.fittingObject?]

theorem pickClass (t : HostType) (name : String) :
    w'.pickClass t name v = w.pickClass t name v := by
  unfold World.pickClass
  simp only [h.pickObject, h.fittingObject?]
  obtain hfind | ⟨hnone, e, hsome⟩ := Catalog.find?_grows (World.catalog_grows h.session) name
  · rw [hfind]
  · rw [hnone, hsome]
    -- The class of arrays is neither a delegate nor an interface.
    cases v <;> rfl

theorem list? (t : HostType) : w'.list? t v = w.list? t v := by
  unfold World.list?
  cases t.unwrapNullable with
  | array e =>
    cases v with
    | table t =>
      dsimp only
      rw [h.behind]
    | _ => rfl
  | _ => rfl

theorem pick (t : HostType) : w'.pick t v = w.pick t v := by
  unfold World.pick
  simp only [h.pickObject, h.pickClass]

theorem fulfils (c : Conversion) : w'.fulfils c v = w.fulfils c v := by
  unfold World.fulfils
  simp only [h.fittingObject?, h.builds]

end World.Views

/-! ## What is seen in an undisturbed world -/

namespace World.Undisturbed

variable {w w' : World} (h : w.Undisturbed w')
include h

/-! ### Objects -/

theorem metatable (t : TableRef) : (w'.table t).metatable = (w.table t).metatable := by
  by_cases hregistry : t = w.machine.registry
  · subst hregistry
    exact h.slots.metatable
  · rw [h.table hregistry]

theorem metafieldOf (t : TableRef) {name : String} (hname : name ≠ Reference.freeField) :
    w'.metafieldOf (.table t) name = w.metafieldOf (.table t) name := by
  have hmeta := h.metatable t
  unfold World.metafieldOf World.metatableOf
  dsimp only
  rw [hmeta]
  cases (w.table t).metatable with
  | none => rfl
  | some mt => exact h.fieldOf mt hname

theorem proxyId? (v : Value) : w'.proxyId? v = w.proxyId? v := by
  cases v with
  | userdata u =>
    unfold World.proxyId?
    dsimp only
    rw [h.userdata]
  | _ => rfl

theorem shown (v : Value) : w'.shown v = w.shown v := by
  cases v with
  | table t => exact h.metafieldOf t (by decide)
  | _ => rfl

theorem objectBehind? (v : Value) : w'.objectBehind? v = w.objectBehind? v := by
  have hregistry : w'.machine.session.map Session.registry =
    w.machine.session.map Session.registry := h.session.map_eq fun s s' hl => hl.registry
  rw [World.objectBehind?_eq, World.objectBehind?_eq, h.shown, h.proxyId?, hregistry]

theorem views (v : Value) : w.Views w' v := ⟨h.session, h.objects, h.objectBehind? v⟩

/-! ### Items -/

variable {t : TableRef} (ht : t ≠ w.machine.registry)
include ht

theorem item (position : Int) : w'.item t position = w.item t position := by
  unfold World.item
  rw [h.table ht, h.isLive]

theorem length : (w'.table t).length w'.isLive = (w.table t).length w.isLive := by
  rw [h.table ht, h.isLive]

end World.Undisturbed

/-! ## What an action gives -/

/-- In every steady world that was left undisturbed the action gives a result with a property, as
long as numbers of references are in range. -/
def World.Foresees {α : Type} (w : World) (x : Action α) (P : α → Prop) : Prop :=
  ∀ w', w.Undisturbed w' → w'.Steady → (x w').2.machine.nextRef ≤ IntegerKind.i32.hi → P (x w').1

namespace World.Foresees

variable {α β : Type} {w : World} {x : Action α} {f : α → Action β} {P : α → Prop} {Q : β → Prop}

protected theorem pure {a : α} (h : P a) : w.Foresees (pure a) P := fun _ _ _ _ => h

protected theorem bind (hx : Tidy x) (hf : ∀ a, Ascends (f a)) (h : w.Foresees x P)
    (h' : ∀ a, P a → w.Foresees (f a) Q) : w.Foresees (x >>= f) Q := by
  intro w' hw hsteady hlimit
  have hlimit₁ : (x w').2.machine.nextRef ≤ IntegerKind.i32.hi := Int.le_trans (hf _ _) hlimit
  have hserene := hx.serene w' hsteady hlimit₁
  exact h' _ (h w' hw hsteady hlimit₁) (x w').2 (hw.trans hserene.undisturbed) hserene.steady hlimit

/-- The rest of an action after a result that is known. -/
protected theorem known {a : α} (hx : Tidy x) (hf : ∀ a, Ascends (f a))
    (h : w.Foresees x (· = a)) (h' : w.Foresees (f a) Q) : w.Foresees (x >>= f) Q :=
  .bind hx hf h fun _ he => he ▸ h'

end World.Foresees

/-! ## Reading items -/

section

variable {w : World} {convert : Value → Action (Option HostValue)} {t : TableRef}
variable (ht : t ≠ w.machine.registry)
include ht

theorem foresees_convertItem {position : Int} {b : Bool}
    (hconvert : w.Foresees (convert (w.item t position)) (·.isSome = b)) :
    w.Foresees (convertItem convert t position) (·.isSome = b) := by
  intro w' hw hsteady hlimit
  have hread : w'.item t position = w.item t position := hw.item ht position
  cases hitem : convert (w'.item t position)
    { w' with machine := w'.machine.push (w'.item t position) } with | mk item w₂
  have hgives := hconvert _ (hw.push (w'.item t position)) (hsteady.push _)
  rw [nextRef_convertItem hsteady.frame hitem] at hlimit
  rw [← hread, hitem] at hgives
  rw [convertItem_eq hsteady.frame hitem]
  exact hgives hlimit

variable (h : ∀ v, Tidy (convert v))
include h

/-- Items from a position on. -/
theorem foresees_convertItems (reads : Value → Bool) (n k : Nat) (done : List HostValue)
    (hitems : ∀ i ∈ List.range' k n,
      w.Foresees (convert (w.item t i)) (·.isSome = reads (w.item t i))) :
    w.Foresees (convertItems convert t n k done)
      (·.isSome = (List.range' k n).all fun i => reads (w.item t i)) := by
  induction n generalizing k done with
  | zero => exact .pure rfl
  | succ n ih =>
    rw [List.range'_succ] at hitems ⊢
    have hconvert := hitems k List.mem_cons_self
    refine .bind (tidy_convertItem h t k) (fun found => ?_) (foresees_convertItem ht hconvert)
      fun found hfound => ?_
    · cases found with
      | some item => exact (tidy_convertItems h t n _ _).ascends
      | none => exact (tidy_release _).ascends.bind fun _ => .pure _
    · rw [List.all_cons, ← hfound]
      cases found with
      | some item =>
        rw [Option.isSome_some, Bool.true_and]
        exact ih (k + 1) _ fun i hi => hitems i (List.mem_cons_of_mem _ hi)
      | none => exact fun _ _ _ _ => rfl

theorem foresees_readItems {reads : Value → Bool}
    (hitems : ∀ v ∈ w.items t, w.Foresees (convert v) (·.isSome = reads v)) :
    w.Foresees (readItems convert (.table t)) (·.isSome = (w.items t).all reads) := by
  have hlength : w.Foresees (rawLength (.table t)) (· = (w.table t).length w.isLive) :=
    fun w' hw _ _ => hw.length ht
  have hread := foresees_convertItems ht h reads
    ((w.table t).length w.isLive) 1 [] fun i hi => hitems _ (List.mem_map.mpr ⟨i, hi, rfl⟩)
  refine .known (.bind .get fun _ => .pure _) (fun n => (tidy_convertItems h t n 1 []).ascends)
    hlength ?_
  unfold World.items
  rw [List.all_map]
  exact hread

end

/-! ## Which values are read -/

namespace World

variable (w : World)

/-- The conversion that matching chooses, given whether the items of a table are read. -/
def choice (whole : Bool) (t : HostType) (v : Value) : Option Conversion :=
  match w.list? t v with
  | some e => if whole then some (.arrayTable e) else none
  | none => w.pick t v

/-- Whether a value is read as a type, given whether the items of a table are. -/
def readsWith (whole : Bool) (t : HostType) (v : Value) : Bool :=
  match w.list? t v with
  | some _ => whole
  | none =>
    match w.pick t v with
    | some c => w.fulfils c v
    | none => false

/-- A table whose items are all read. -/
def isList (reads : Value → Bool) (v : Value) : Bool :=
  match v with
  | .table t => (w.items t).all reads
  | _ => false

/-- Whether a value is read as a type. -/
def reads : HostType → Value → Bool
  | .array e, v => w.readsWith (w.isList (reads e) v) (.array e) v
  | .nullable (.array e), v => w.readsWith (w.isList (reads e) v) (.nullable (.array e)) v
  | t, v => w.readsWith false t v

/-- Whether a value is a table whose items are read as the element type of an array type. -/
def whole (t : HostType) (v : Value) : Bool :=
  match t.unwrapNullable with
  | .array e => w.isList (w.reads e) v
  | _ => false

/-- Whether a conversion reads a value, items included. -/
def extracts (c : Conversion) (v : Value) : Bool :=
  match c with
  | .arrayTable e => v.isNil || w.isList (w.reads e) v
  | _ => w.fulfils c v

/-- A value that is no table, or a table other than the registry table whose items have a
property. -/
def Listed (P : Value → Prop) (v : Value) : Prop :=
  ∀ t, v = .table t → t ≠ w.machine.registry ∧ ∀ x ∈ w.items t, P x

/-- Reading the value as a type does not come to the registry table. -/
def Apart : HostType → Value → Prop
  | .array e, v | .nullable (.array e), v => w.objectBehind? v = none → w.Listed (Apart e) v
  | _, _ => True

theorem reads_eq (t : HostType) (v : Value) : w.reads t v = w.readsWith (w.whole t v) t v := by
  cases t with
  | nullable t => cases t <;> rfl
  | _ => rfl

end World

namespace World

variable {w : World} {t e : HostType} {v : Value} {c : Conversion}

theorem Apart.listed (h : w.Apart t v) (he : w.list? t v = some e) :
    w.Listed (w.Apart e) v := by
  obtain ⟨ht, -, hnone⟩ := list?_eq_some he
  cases t with
  | array e' =>
    cases ht
    exact h hnone
  | nullable t =>
    obtain rfl : t = .array e := ht
    exact h hnone
  | _ => cases ht

theorem Listed.mono {P Q : Value → Prop} (h : w.Listed P v) (hPQ : ∀ x, P x → Q x) :
    w.Listed Q v :=
  fun t ht => ⟨(h t ht).1, fun x hx => hPQ x ((h t ht).2 x hx)⟩

/-- Only a table that is read item by item gets a conversion of its items. -/
theorem Apart.listed_of_choice (h : w.Apart t v) {whole : Bool}
    (hc : w.choice whole t v = some (.arrayTable e)) : w.Listed (w.Apart e) v := by
  unfold choice at hc
  cases hlist : w.list? t v with
  | none =>
    rw [hlist] at hc
    exact absurd rfl (pick_ne_arrayTable hc e)
  | some e' =>
    rw [hlist] at hc
    dsimp only at hc
    split at hc
    · cases hc
      exact h.listed hlist
    · cases hc

theorem list?_whole (h : w.list? t v = some e) : w.whole t v = w.isList (w.reads e) v := by
  unfold whole
  rw [(list?_eq_some h).1]

/-- A conversion that was chosen reads the value, but for a delegate without a call signature. -/
theorem extracts_of_choice (hbuilds : w.builds = true) (h : w.choice (w.whole t v) t v = some c) :
    w.extracts c v = true ∨ w.Unsigned t v := by
  unfold choice at h
  cases hlist : w.list? t v with
  | some e =>
    rw [hlist, list?_whole hlist] at h
    dsimp only at h
    split at h
    · rename_i hwhole
      cases h
      refine .inl ?_
      unfold extracts
      dsimp only
      rw [hwhole, Bool.or_true]
    · cases h
  | none =>
    rw [hlist] at h
    refine (fulfils_of_pick hbuilds h).imp_left fun hfulfils => ?_
    unfold extracts
    cases c with
    | arrayTable e => exact absurd rfl (pick_ne_arrayTable h e)
    | _ => exact hfulfils

end World

/-! ## Reading as a type -/

section

variable {w : World} {items : ItemReader} {t e : HostType} {v : Value} {whole : Bool}

theorem foresees_itemsConvert (hitems : Tidy (items v))
    (h : w.Foresees (items v) (·.isSome = whole)) :
    w.Foresees (itemsConvert items v) (· = whole) := by
  refine .bind hitems (fun found => ?_) h fun found hfound => ?_
  · cases found with
    | some converted => exact ((tidy_release _).bind fun _ => .pure _).ascends
    | none => exact .pure _
  · rw [← hfound]
    cases found <;> exact fun _ _ _ _ => rfl

theorem foresees_matchType (hitems : Tidy (items v))
    (h : ∀ e, w.list? t v = some e → w.Foresees (items v) (·.isSome = whole)) :
    w.Foresees (matchType items t v) (· = w.choice whole t v) := by
  intro w' hw hsteady hlimit
  have hlist := (hw.views v).list? t
  unfold World.choice
  cases he : w.list? t v with
  | none =>
    rw [matchType_eq (hlist.trans he)]
    exact (hw.views v).pick t
  | some e =>
    rw [matchType_list (hlist.trans he)] at hlimit ⊢
    have hwhole := foresees_itemsConvert hitems (h e he) w' hw hsteady hlimit
    dsimp only
    rw [hwhole]

theorem foresees_readAs {c : Conversion} (hc : ∀ e, c = .arrayTable e → v.isNil = true) :
    w.Foresees (readAs items c v) (·.isSome = w.fulfils c v) :=
  fun w' hw _ _ => (readAs_isSome hc w').trans ((hw.views v).fulfils c)

theorem foresees_readAs_arrayTable (hitems : Tidy (items v)) (hnil : v.isNil = false)
    (h : w.Foresees (items v) (·.isSome = whole)) :
    w.Foresees (readAs items (.arrayTable e) v) (·.isSome = whole) := by
  unfold readAs
  dsimp only
  rw [hnil, if_neg Bool.false_ne_true]
  refine .bind hitems (fun found => ?_) h fun found hfound => ?_
  · cases found with
    | some converted => exact ((tidy_newArray _ _).bind fun _ => .pure _).ascends
    | none => exact .pure _
  · rw [← hfound]
    cases found <;> exact fun _ _ _ _ => rfl

theorem foresees_convertWith (hitems : ∀ v, Tidy (items v))
    (h : ∀ e, w.list? t v = some e → w.Foresees (items v) (·.isSome = whole)) :
    w.Foresees (convertWith items t v) (·.isSome = w.readsWith whole t v) := by
  refine .known (tidy_matchType hitems t v) (fun c => ?_) (foresees_matchType (hitems v) h) ?_
  · cases c with
    | some c => exact (tidy_readAs hitems c v).ascends
    | none => exact .pure _
  · unfold World.choice World.readsWith
    cases he : w.list? t v with
    | none =>
      dsimp only
      cases hpick : w.pick t v with
      | none => exact .pure rfl
      | some c =>
        exact foresees_readAs fun e hc => absurd hc (World.pick_ne_arrayTable hpick e)
    | some e =>
      dsimp only
      obtain ⟨-, ⟨r, rfl⟩, -⟩ := World.list?_eq_some he
      cases whole with
      | false => exact .pure rfl
      | true => exact foresees_readAs_arrayTable (hitems _) rfl (h e he)

theorem foresees_readItems_of_listed {convert : Value → Action (Option HostValue)}
    {reads : Value → Bool} (hconvert : ∀ v, Tidy (convert v))
    (h : w.Listed (fun x => w.Foresees (convert x) (·.isSome = reads x)) v) :
    w.Foresees (readItems convert v) (·.isSome = w.isList reads v) := by
  cases v with
  | table t =>
    obtain ⟨hne, hitems⟩ := h t rfl
    exact foresees_readItems hne hconvert hitems
  | _ => exact .pure rfl

/-- An array type is taken after its element type. -/
theorem HostType.element_induction {P : HostType → Prop}
    (h : ∀ t, (∀ e, t.unwrapNullable = .array e → P e) → P t) (t : HostType) : P t := by
  refine h t fun e he => ?_
  have hlt : sizeOf e < sizeOf t := by
    cases t with
    | nullable t =>
      obtain rfl : t = .array e := he
      simp only [nullable.sizeOf_spec, array.sizeOf_spec]
      omega
    | array e' =>
      cases he
      simp only [array.sizeOf_spec]
      omega
    | _ => cases he
  exact element_induction h e
termination_by sizeOf t

theorem foresees_asType (t : HostType) (v : Value) (h : w.Apart t v) :
    w.Foresees (asType t v) (·.isSome = w.reads t v) := by
  induction t using HostType.element_induction generalizing v with
  | h t ih =>
    -- Items are read as the element type, of which this is known for every value.
    rw [asType_eq, World.reads_eq]
    refine foresees_convertWith (tidy_itemsFor t) fun e he => ?_
    have ht := (World.list?_eq_some he).1
    rw [World.list?_whole he]
    unfold itemsFor
    rw [ht]
    exact foresees_readItems_of_listed (tidy_asType e)
      ((h.listed he).mono fun x hx => ih e ht x hx)

theorem foresees_tableToArray (h : w.Listed (w.Apart e) v) :
    w.Foresees (tableToArray e v) (·.isSome = w.isList (w.reads e) v) :=
  foresees_readItems_of_listed (tidy_asType e) (h.mono fun x hx => foresees_asType e x hx)

/-- Checking a value against a type. -/
theorem foresees_checkType (h : w.Apart t v) :
    w.Foresees (checkType t v) (· = w.choice (w.whole t v) t v) := by
  refine foresees_matchType (tidy_itemsFor t v) fun e he => ?_
  rw [World.list?_whole he]
  unfold itemsFor
  rw [(World.list?_eq_some he).1]
  exact foresees_tableToArray (h.listed he)

/-- Running a conversion. -/
theorem foresees_extract {c : Conversion}
    (h : ∀ e, c = .arrayTable e → w.Listed (w.Apart e) v) :
    w.Foresees (c.extract v) (·.isSome = w.extracts c v) := by
  cases c with
  | arrayTable e =>
    cases hnil : v.isNil with
    | true =>
      obtain rfl : v = .nil := beq_iff_eq.mp hnil
      exact fun _ _ _ _ => rfl
    | false =>
      have hextracts : w.extracts (.arrayTable e) v = w.isList (w.reads e) v := by
        show (v.isNil || _) = _
        rw [hnil, Bool.false_or]
      rw [hextracts]
      exact foresees_readAs_arrayTable (tidy_tableToArray e v) hnil
        (foresees_tableToArray (h e rfl))
  | _ => exact foresees_readAs nofun

/-- A conversion that was chosen reads the value whenever it is run. -/
theorem foresees_extract_of_choice {c : Conversion} (hbuilds : w.builds = true)
    (hunsigned : ¬ w.Unsigned t v) (h : w.Apart t v)
    (hc : w.choice (w.whole t v) t v = some c) : w.Foresees (c.extract v) (·.isSome = true) := by
  rw [← (World.extracts_of_choice hbuilds hc).resolve_right hunsigned]
  refine foresees_extract fun e he => ?_
  subst he
  exact h.listed_of_choice hc

end

end ScriptBridge
