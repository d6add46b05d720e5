import ScriptBridge.Proofs.Dispatch.Selection

/-!
# Which runs of arguments a variadic parameter takes

A variadic parameter is tried with its first argument alone before a run of arguments is, and no
choice is taken back. So a run whose every argument matches the element type is still turned down
when its first argument passes for the whole array and others follow it.

1. `World.Tells`: what an action gives, in a world that checking left as it was. Checking changes
   memory only where a table is read item by item; without tables nothing is asked of the world.
2. `tells_matchRun`, `tells_fillVariadic`, `tells_fillParams`: how far the arguments are used up.
3. `tells_matchParameters` puts them together.
-/

namespace ScriptBridge

variable {w : World} {tables : Prop}

/-! ## Worlds that checking leaves as they were -/

/-- The world is the same or, where tables are read, undisturbed. -/
structure World.Kept (w : World) (tables : Prop) (w' : World) : Prop where
  serene : tables → w.Undisturbed w' ∧ w'.Steady
  same : ¬ tables → w' = w

/-- In every world that was kept the action gives a result with a property and keeps the world, as
long as numbers of references are in range where tables are read. -/
def World.Tells {α : Type} (w : World) (tables : Prop) (x : Action α) (P : α → Prop) : Prop :=
  ∀ w', w.Kept tables w' → (tables → (x w').2.machine.nextRef ≤ IntegerKind.i32.hi) →
    P (x w').1 ∧ w.Kept tables (x w').2

theorem World.Kept.refl (h : tables → w.Steady) : w.Kept tables w :=
  ⟨fun ht => ⟨.refl w, h ht⟩, fun _ => rfl⟩

namespace World.Tells

variable {α β : Type} {x : Action α} {f : α → Action β} {P : α → Prop} {Q : β → Prop}

protected theorem pure {a : α} (h : P a) : w.Tells tables (pure a) P := fun _ hw _ => ⟨h, hw⟩

protected theorem bind (hf : ∀ a, Ascends (f a)) (h : w.Tells tables x P)
    (h' : ∀ a, P a → w.Tells tables (f a) Q) : w.Tells tables (x >>= f) Q := by
  intro w' hw hlimit
  obtain ⟨ha, hkept⟩ := h w' hw fun ht => Int.le_trans (hf _ _) (hlimit ht)
  exact h' _ ha _ hkept hlimit

/-- A tidy action that is foreseen where tables are read, and changes nothing elsewhere. -/
protected theorem of_foresees (hx : Tidy x) (h : tables → w.Foresees x P)
    (h' : ¬ tables → P (x w).1 ∧ (x w).2 = w) : w.Tells tables x P := by
  intro w' hw hlimit
  by_cases ht : tables
  · obtain ⟨hundisturbed, hsteady⟩ := hw.serene ht
    have hserene := hx.serene w' hsteady (hlimit ht)
    exact ⟨h ht w' hundisturbed hsteady (hlimit ht),
      fun _ => ⟨hundisturbed.trans hserene.undisturbed, hserene.steady⟩, fun hnot => absurd ht hnot⟩
  · rw [hw.same ht]
    obtain ⟨hP, hsame⟩ := h' ht
    exact ⟨hP, fun ht' => absurd ht' ht, fun _ => hsame⟩

end World.Tells

/-! ## One argument -/

section

variable {t e : HostType} {v : Value} (htable : ∀ r, v = .table r → tables)
include htable

theorem tells_checkType (hapart : tables → w.Apart t v) :
    w.Tells tables (checkType t v) (· = w.choice (w.whole t v) t v) := by
  refine .of_foresees (tidy_checkType t v) (fun ht => foresees_checkType (hapart ht)) fun hnot => ?_
  have hlist : w.list? t v = none := by
    cases hlist : w.list? t v with
    | none => rfl
    | some e =>
      obtain ⟨-, ⟨r, hr⟩, -⟩ := World.list?_eq_some hlist
      exact absurd (htable r hr) hnot
  have hpick : checkType t v w = (w.pick t v, w) := matchType_eq hlist
  rw [hpick]
  unfold World.choice
  rw [hlist]
  exact ⟨rfl, rfl⟩

theorem tells_itemsConvert (hlisted : tables → w.Listed (w.Apart e) v) :
    w.Tells tables (itemsConvert (tableToArray e) v) (· = w.isList (w.reads e) v) := by
  refine .of_foresees (tidy_itemsConvert (tidy_tableToArray e) v)
    (fun ht => foresees_itemsConvert (tidy_tableToArray e v) (foresees_tableToArray (hlisted ht)))
    fun hnot => ?_
  cases v with
  | table r => exact absurd (htable r rfl) hnot
  | _ => exact ⟨rfl, rfl⟩

end

/-- The value matches the type, and checking that can be told beforehand. -/
structure World.Accepts (w : World) (tables : Prop) (t : HostType) (v : Value) : Prop where
  table : ∀ r, v = .table r → tables
  apart : tables → w.Apart t v
  chosen : (w.choice (w.whole t v) t v).isSome = true

theorem World.Accepts.of_checkType {t : HostType} {v : Value} (htable : ∀ r, v = .table r → tables)
    (hsteady : tables → w.Steady) (hapart : tables → w.Apart t v)
    (hlimit : tables → (checkType t v w).2.machine.nextRef ≤ IntegerKind.i32.hi)
    (h : (checkType t v w).1.isSome = true) : w.Accepts tables t v := by
  obtain ⟨hchoice, -⟩ := tells_checkType htable hapart w (.refl hsteady) hlimit
  exact ⟨htable, hapart, hchoice ▸ h⟩

theorem World.Accepts.tells {t : HostType} {v : Value} (h : w.Accepts tables t v) :
    w.Tells tables (checkType t v) (·.isSome = true) := fun w' hw hlimit => by
  obtain ⟨hchoice, hkept⟩ := tells_checkType h.table h.apart w' hw hlimit
  exact ⟨hchoice ▸ h.chosen, hkept⟩

/-! ## What a variadic parameter takes for its array -/

/-- An argument that passes for the whole array of a variadic parameter: nil, a table whose items
are all read as the element type, or an array of that type. -/
def World.passesForArray (w : World) (e : HostType) (v : Value) : Bool :=
  v.isNil || w.isList (w.reads e) v || (w.fittingObject? v (.array e)).isSome

/-- Such an argument matches the array type or is a table of items, which are the two ways tried
before a run. -/
theorem World.passesForArray_eq (w : World) (e : HostType) (v : Value) :
    w.passesForArray e v =
      ((w.choice (w.whole (.array e) v) (.array e) v).isSome || w.isList (w.reads e) v) := by
  unfold passesForArray choice
  cases hlist : w.list? (.array e) v with
  | none =>
    have hpick : (w.pick (.array e) v).isSome =
        (v.isNil || (w.fittingObject? v (.array e)).isSome) := by
      show (if v.isNil && HostType.array e != .array e then _ else _ : Option Conversion).isSome = _
      rw [bne_self_eq_false, Bool.and_false, if_neg Bool.false_ne_true]
      cases hnil : v.isNil with
      | true => rfl
      | false => exact Option.isSome_map
    dsimp only
    rw [hpick, Bool.or_right_comm]
  | some e' =>
    obtain ⟨ht, ⟨r, rfl⟩, hnone⟩ := list?_eq_some hlist
    cases ht
    have hfitting : w.fittingObject? (.table r) (.array e) = none := by
      unfold fittingObject?
      rw [hnone]
      rfl
    have hwhole : w.whole (.array e) (.table r) = w.isList (w.reads e) (.table r) := rfl
    have hnil : (Value.table r).isNil = false := rfl
    dsimp only
    rw [hfitting, hwhole, hnil]
    cases w.isList (w.reads e) (.table r) <;> rfl

/-! ## How many arguments a parameter uses up -/

/-- One argument by itself fills a slot, and may be an output besides. -/
theorem Filling.single_eq (f : Filling) (p : Param) (c : Conversion) :
    ∃ outSlots, f.single p c = { f.slot p (.single c) 1 with outSlots } := by
  unfold single
  dsimp only
  split <;> exact ⟨_, rfl⟩

theorem Filling.single_cursor (f : Filling) (p : Param) (c : Conversion) :
    (f.single p c).cursor = f.cursor + 1 := by
  obtain ⟨_, heq⟩ := f.single_eq p c
  rw [heq]
  rfl

/-- A variadic parameter whose type the next argument does not match. -/
theorem fillMatched_variadic {f : Filling} {p : Param} {e : HostType} {v : Value}
    {rest : List Value} (hvariadic : p.variadic = true) (helement : p.type = .array e) :
    fillMatched f p v rest none = matchVariadic e (v :: rest) >>= fun
      | some (source, count) => return some (f.slot p source count)
      | none => return fillDefault f p := by
  cases p with | mk type mode default variadic
  cases hvariadic
  cases helement
  rfl

/-- A run of arguments that all match is taken to its end. -/
theorem tells_matchRun {e : HostType} {arguments : List Value}
    (h : ∀ x ∈ arguments, w.Accepts tables e x) :
    w.Tells tables (matchRun e arguments) (·.length = arguments.length) := by
  induction arguments with
  | nil => exact .pure rfl
  | cons v rest ih =>
    refine .bind (fun c => ?_) (h v List.mem_cons_self).tells fun c hc => ?_
    · cases c with
      | some c => exact (tidy_matchRun e rest).ascends.bind fun _ => .pure _
      | none => exact .pure _
    · obtain ⟨c, rfl⟩ := Option.isSome_iff_exists.mp hc
      refine .bind (fun _ => .pure _) (ih fun x hx => h x (List.mem_cons_of_mem v hx)) ?_
      exact fun cs hcs => .pure (congrArg (· + 1) hcs)

/-- How many arguments are used, once it is known whether the first one is a table of items. -/
theorem tells_sourceOf {e : HostType} {v : Value} {rest : List Value}
    (h : ∀ x ∈ v :: rest, w.Accepts tables e x) (whole : Bool) :
    w.Tells tables (sourceOf e (v :: rest) whole)
      fun r => ∃ source, r = some (source, if whole then 1 else rest.length + 1) := by
  cases whole with
  | true => exact .pure ⟨_, rfl⟩
  | false =>
    refine .bind (fun cs => ?_) (tells_matchRun h) fun cs hcs => ?_
    · cases cs <;> exact .pure _
    · obtain ⟨c, cs, rfl⟩ := List.exists_cons_of_length_eq_add_one hcs
      exact .pure ⟨_, congrArg (fun n => some (_, n)) hcs⟩

theorem tells_matchVariadic {e : HostType} {v : Value} {rest : List Value}
    (h : ∀ x ∈ v :: rest, w.Accepts tables e x) (hlisted : tables → w.Listed (w.Apart e) v) :
    w.Tells tables (matchVariadic e (v :: rest)) fun r => ∃ source, r =
      some (source, if w.isList (w.reads e) v then 1 else rest.length + 1) := by
  rw [matchVariadic_cons]
  refine .bind (fun whole => (tidy_sourceOf e _ whole).ascends)
    (tells_itemsConvert (h v List.mem_cons_self).table hlisted) fun whole hwhole => ?_
  rw [← hwhole]
  exact tells_sourceOf h whole

section

variable {arguments : List Value} {f : Filling} {p : Param} {e : HostType} {v : Value}
variable {rest : List Value}

/-- A parameter whose next argument matches its type uses up that argument. -/
theorem tells_fillAccepted (hmode : p.mode ≠ .output) (hrest : arguments.drop f.cursor = v :: rest)
    (h : w.Accepts tables p.type v) :
    w.Tells tables (fillParam arguments f p)
      fun r => ∃ g, r = some g ∧ g.cursor = f.cursor + 1 := by
  rw [fillParam_cons hmode hrest]
  refine .bind (fun c => (tidy_fillMatched f p v rest c).ascends) h.tells fun c hc => ?_
  obtain ⟨c, rfl⟩ := Option.isSome_iff_exists.mp hc
  exact .pure ⟨_, rfl, Filling.single_cursor f p c⟩

/-- A variadic parameter over arguments that match its element type uses up all of them, or only the
first one if that passes for the array. -/
theorem tells_fillVariadic (hmode : p.mode ≠ .output) (hvariadic : p.variadic = true)
    (helement : p.type = .array e) (hrest : arguments.drop f.cursor = v :: rest)
    (h : ∀ x ∈ v :: rest, w.Accepts tables e x)
    (hapart : tables → w.Apart (.array e) v ∧ w.Listed (w.Apart e) v) :
    w.Tells tables (fillParam arguments f p) fun r => ∃ g, r = some g ∧
      g.cursor = f.cursor + if w.passesForArray e v then 1 else rest.length + 1 := by
  have htable := (h v List.mem_cons_self).table
  have hcheck := tells_checkType htable fun ht => (hapart ht).1
  rw [fillParam_cons hmode hrest, helement]
  refine .bind (fun c => (tidy_fillMatched f p v rest c).ascends) hcheck fun c hc => ?_
  rw [w.passesForArray_eq, ← hc]
  cases c with
  | some c => exact .pure ⟨_, rfl, Filling.single_cursor f p c⟩
  | none =>
    have htaken := tells_matchVariadic h fun ht => (hapart ht).2
    rw [fillMatched_variadic hvariadic helement, Option.isSome_none, Bool.false_or]
    refine .bind (fun r => ?_) htaken fun r hr => ?_
    · cases r <;> exact .pure _
    · obtain ⟨source, rfl⟩ := hr
      exact .pure ⟨_, rfl, rfl⟩

/-- Parameters whose arguments match, and a variadic one behind them. -/
theorem tells_fillParams {leading : List Param} {given : List Value}
    (hmodes : ∀ q ∈ leading, q.mode ≠ .output) (hmode : p.mode ≠ .output)
    (hvariadic : p.variadic = true) (helement : p.type = .array e)
    (hrest : arguments.drop f.cursor = given ++ v :: rest)
    (hgiven : List.Forall₂ (fun q x => w.Accepts tables q.type x) leading given)
    (h : ∀ x ∈ v :: rest, w.Accepts tables e x)
    (hapart : tables → w.Apart (.array e) v ∧ w.Listed (w.Apart e) v) :
    w.Tells tables (fillParams arguments (leading ++ [p]) f) fun r => ∃ g, r = some g ∧
      g.cursor = f.cursor + given.length + if w.passesForArray e v then 1 else rest.length + 1 := by
  induction hgiven generalizing f with
  | nil =>
    refine .bind (fun r => ?_)
      (tells_fillVariadic hmode hvariadic helement hrest h hapart) fun r hr => ?_
    · cases r <;> exact .pure _
    · obtain ⟨g, rfl, hcursor⟩ := hr
      exact .pure ⟨g, rfl, hcursor⟩
  | @cons q x leading given hx _ ih =>
    refine .bind (fun r => ?_)
      (tells_fillAccepted (hmodes q List.mem_cons_self) hrest hx) fun r hr => ?_
    · cases r with
      | some g => exact (tidy_fillParams arguments (leading ++ [p]) g).ascends
      | none => exact .pure _
    · obtain ⟨g, rfl, hcursor⟩ := hr
      have hdrop : arguments.drop g.cursor = given ++ v :: rest := by
        rw [hcursor, ← List.drop_drop, hrest]
        rfl
      have hlength : f.cursor + (x :: given).length = g.cursor + given.length := by
        rw [hcursor, List.length_cons]
        omega
      rw [hlength]
      exact ih (fun q hq => hmodes q (List.mem_cons_of_mem _ hq)) hdrop

end

/-! ## Matching -/

theorem tells_matchParameters {m : Method} {leading : List Param} {p : Param} {e : HostType}
    {given rest : List Value} {v : Value} (hparams : m.params = leading ++ [p])
    (hmodes : ∀ q ∈ m.params, q.mode ≠ .output) (hvariadic : p.variadic = true)
    (helement : p.type = .array e)
    (hgiven : List.Forall₂ (fun q x => w.Accepts tables q.type x) leading given)
    (h : ∀ x ∈ v :: rest, w.Accepts tables e x)
    (hapart : tables → w.Apart (.array e) v ∧ w.Listed (w.Apart e) v) :
    w.Tells tables (matchParameters m (given ++ v :: rest))
      (·.isSome = (rest.isEmpty || !w.passesForArray e v)) := by
  rw [hparams] at hmodes
  have hleading (q : Param) (hq : q ∈ leading) : q.mode ≠ .output :=
    hmodes q (List.mem_append_left [p] hq)
  have hp : p.mode ≠ .output := hmodes p (List.mem_append_right leading List.mem_cons_self)
  have hfilled := tells_fillParams (f := {}) hleading hp hvariadic helement rfl hgiven h hapart
  unfold matchParameters
  rw [hparams]
  refine .bind (fun r => ?_) hfilled fun r hr => ?_
  · cases r with
    | none => exact .pure _
    | some f =>
      dsimp only
      split <;> exact .pure _
  · obtain ⟨g, rfl, hcursor⟩ := hr
    have hcursor : g.cursor =
        given.length + if w.passesForArray e v then 1 else rest.length + 1 :=
      hcursor.trans (congrArg (· + _) (Nat.zero_add _))
    -- The cursor is behind the last argument unless the first one of several was taken alone.
    have hall : (g.cursor != (given ++ v :: rest).length) =
        !(rest.isEmpty || !w.passesForArray e v) := by
      rw [hcursor, List.length_append, List.length_cons]
      cases w.passesForArray e v with
      | false => simp
      | true => cases rest <;> simp
    dsimp only
    rw [hall]
    cases rest.isEmpty || !w.passesForArray e v <;> exact .pure rfl

/-- What is relied on where arguments are tables, which may be read item by item: memory is as
counting references leaves it, nothing is read out of the registry table, and numbers of references
stay in range. -/
structure World.ChecksTables (w : World) (m : Method) (arguments : List Value) : Prop where
  steady : w.Steady
  apart : ∀ q ∈ m.params, ∀ x ∈ arguments, w.ApartFor q x
  types : ∀ q ∈ m.params, ∀ x ∈ arguments,
    (checkType q.type x w).2.machine.nextRef ≤ IntegerKind.i32.hi
  elements : ∀ q ∈ m.params, ∀ e ∈ q.element?, ∀ x ∈ arguments,
    (checkType e x w).2.machine.nextRef ≤ IntegerKind.i32.hi
  plan : (matchParameters m arguments w).2.machine.nextRef ≤ IntegerKind.i32.hi

/-- A method whose last parameter is variadic, over arguments that each match: the ones before by
their types, one or more others by the element type. It accepts them if and only if there is one
other argument, or the first one of several does not pass for the whole array. -/
theorem variadic_match_isSome (w : World) (m : Method) (leading : List Param) (p : Param)
    (e : HostType) (given : List Value) (v : Value) (rest : List Value)
    (hparams : m.params = leading ++ [p]) (hmodes : ∀ q ∈ m.params, q.mode ≠ .output)
    (hvariadic : p.variadic = true) (helement : p.type = .array e)
    (hgiven : List.Forall₂ (fun q x => (checkType q.type x w).1.isSome = true) leading given)
    (hrun : ∀ x ∈ v :: rest, (checkType e x w).1.isSome = true)
    (htables : ∀ t, Value.table t ∈ given ++ v :: rest →
      w.ChecksTables m (given ++ v :: rest)) :
    (matchParameters m (given ++ v :: rest) w).1.isSome =
      (rest.isEmpty || !w.passesForArray e v) := by
  let tables : Prop := ∃ t, Value.table t ∈ given ++ v :: rest
  have hchecks : tables → w.ChecksTables m (given ++ v :: rest) := fun ⟨t, ht⟩ => htables t ht
  have haccepts {t : HostType} {x : Value} (hx : x ∈ given ++ v :: rest)
      (hapart : tables → w.Apart t x)
      (hlimit : tables → (checkType t x w).2.machine.nextRef ≤ IntegerKind.i32.hi)
      (h : (checkType t x w).1.isSome = true) : w.Accepts tables t x :=
    .of_checkType (fun r hr => ⟨r, hr ▸ hx⟩) (fun h => (hchecks h).steady) hapart hlimit h
  have hleading : List.Forall₂ (fun q x => w.Accepts tables q.type x) leading given := by
    obtain ⟨hlength, hzip⟩ := List.forall₂_iff_zip.mp hgiven
    refine List.forall₂_iff_zip.mpr ⟨hlength, fun {q x} hqx => ?_⟩
    obtain ⟨hq, hx⟩ := List.of_mem_zip hqx
    have hq : q ∈ m.params := hparams ▸ List.mem_append_left [p] hq
    have hx : x ∈ given ++ v :: rest := List.mem_append_left _ hx
    exact haccepts hx (fun h => ((hchecks h).apart q hq x hx).1)
      (fun h => (hchecks h).types q hq x hx) (hzip hqx)
  have hp : p ∈ m.params := hparams ▸ List.mem_append_right leading List.mem_cons_self
  have he : p.element? = some e := by
    unfold Param.element?
    rw [helement]
  have hapart {x : Value} (hx : x ∈ v :: rest) (h : tables) :
      w.Apart (.array e) x ∧ w.Apart e x ∧ w.Listed (w.Apart e) x := by
    have hfor := (hchecks h).apart p hp x (List.mem_append_right given hx)
    exact ⟨helement ▸ hfor.1, hfor.2 e hvariadic he⟩
  have hothers (x : Value) (hx : x ∈ v :: rest) : w.Accepts tables e x := by
    have hmem : x ∈ given ++ v :: rest := List.mem_append_right given hx
    exact haccepts hmem (fun h => (hapart hx h).2.1)
      (fun h => (hchecks h).elements p hp e he x hmem) (hrun x hx)
  have hmatch := tells_matchParameters hparams hmodes hvariadic helement hleading hothers fun h =>
    have hv := hapart List.mem_cons_self h
    ⟨hv.1, hv.2.2⟩
  exact (hmatch w (.refl fun h => (hchecks h).steady) fun h => (hchecks h).plan).1

/-- A method that gathers its last arguments. -/
def gathering (leading : List HostType) (e : HostType) : Method where
  name := "gather"
  declaringType := "Demo.Lists"
  params := leading.map (⟨·, .input, none, false⟩) ++ [⟨.array e, .input, none, true⟩]
  ret := .void
  body := some (.statements [])

theorem listsWorld_listed : listsWorld.Listed (listsWorld.Apart functionLists) (.table ⟨4⟩) := by
  rintro t ⟨⟩
  refine ⟨by decide, fun x hx _ t ht => ?_⟩
  obtain rfl : x = .table ⟨3⟩ := List.mem_singleton.mp hx
  cases ht
  refine ⟨by decide, fun y hy _ t ht => ?_⟩
  obtain rfl : y = .function ⟨0⟩ := List.mem_singleton.mp hy
  cases ht

theorem listsWorld_checksTables :
    listsWorld.ChecksTables (gathering [.bool] functionLists)
      [.boolean true, .table ⟨4⟩, .table ⟨4⟩] where
  steady := listsWorld_steady
  apart q hq x hx := by
    obtain rfl | hq := List.mem_cons.mp hq
    · exact ⟨trivial, nofun⟩
    obtain rfl := List.mem_singleton.mp hq
    obtain ⟨hapart, hlisted⟩ : listsWorld.Apart functionLists x ∧
        listsWorld.Listed (listsWorld.Apart functionLists) x := by
      obtain rfl | rfl : x = .boolean true ∨ x = .table ⟨4⟩ := by simpa using hx
      · exact ⟨fun _ => nofun, nofun⟩
      · exact ⟨listsWorld_apart, listsWorld_listed⟩
    refine ⟨fun _ => hlisted, fun e _ he => ?_⟩
    cases he
    exact ⟨hapart, hlisted⟩
  types := by decide +kernel
  elements := by decide +kernel
  plan := by decide +kernel

/-- A truth value and two lists of lists of functions: neither list is itself read as a list of
them, so both are gathered. -/
theorem lists_gathered :
    (matchParameters (gathering [.bool] functionLists) [.boolean true, .table ⟨4⟩, .table ⟨4⟩]
      listsWorld).1.isSome = true := by
  have hlists : listsWorld.passesForArray functionLists (.table ⟨4⟩) = false := by decide +kernel
  have hmatch := variadic_match_isSome listsWorld (gathering [.bool] functionLists)
    [⟨.bool, .input, none, false⟩] ⟨.array functionLists, .input, none, true⟩ functionLists
    [.boolean true] (.table ⟨4⟩) [.table ⟨4⟩] rfl (by decide) rfl rfl
    (.cons rfl .nil) (by decide +kernel) fun _ _ => listsWorld_checksTables
  rw [hlists] at hmatch
  exact hmatch

/-- Two runs whose every argument matches are turned down. Nil is taken for the array, and nothing
is left for the argument behind it. And of two references to the registry table only the first one
matches: reading it keeps a function there, where the second reading finds it as an item. -/
theorem matching_runs_turned_down :
    ((∀ x ∈ [Value.nil, .boolean true], (checkType .any x listsWorld).1.isSome = true) ∧
      (matchParameters (gathering [] .any) [.nil, .boolean true] listsWorld).1.isNone = true) ∧
    (checkType functionLists (.table ⟨0⟩) listsWorld).1.isSome = true ∧
    (matchParameters (gathering [functionLists] functionLists) [.table ⟨0⟩, .table ⟨0⟩]
      listsWorld).1.isNone = true := by
  refine ⟨⟨?_, ?_⟩, ?_, ?_⟩ <;> decide +kernel

end ScriptBridge
