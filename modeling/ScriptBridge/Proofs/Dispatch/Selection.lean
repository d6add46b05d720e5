import ScriptBridge.Proofs.Dispatch.Repeating

/-!
# A match can always be extracted

Matching chooses conversions, and extracting runs them on the same values. Whatever matched is
extracted, but for a function that is to become a delegate without a call signature, and so the
candidate that resolving selects is the first one whose parameters match.
-/

namespace ScriptBridge

variable {w : World}

/-! ## One value -/

/-- Every delegate class of the catalog has a call signature. -/
def Catalog.Signed (c : Catalog) : Prop :=
  ∀ name cls, c.find? name = some cls → cls.kind = .delegate → cls.invokeMethod?.isSome = true

/-- It is enough to look at each class once. -/
theorem Catalog.Signed.of_all {c : Catalog}
    (h : (c.classes.all fun p => p.2.kind != .delegate || p.2.invokeMethod?.isSome) = true) :
    c.Signed := by
  intro name cls hfind hkind
  have hclass := List.all_eq_true.mp h _ (Dictionary.mem_of_get? hfind)
  rw [hkind] at hclass
  exact hclass

theorem Catalog.Signed.not_unsigned (h : w.catalog.Signed) (t : HostType) (v : Value) :
    ¬ w.Unsigned t v := by
  rintro ⟨f, name, cls, -, -, hfind, hkind, hnone⟩
  have hsome := h name cls hfind hkind
  rw [hnone] at hsome
  cases hsome

section

variable (hbuilds : w.builds = true) (hsigned : w.catalog.Signed)
include hbuilds hsigned

/-- A value that was checked against a type is extracted. -/
theorem checks_of_apart {t : HostType} {v : Value} (h : w.Apart t v) :
    w.Checks True (· = true) t v :=
  ⟨_, .of_tables trivial (tidy_checkType t v) (foresees_checkType h), fun _ hc =>
    ⟨true, rfl, .of_tables trivial (tidy_extract _ v)
      (foresees_extract_of_choice hbuilds (hsigned.not_unsigned t v) h hc)⟩⟩

theorem decides_of_apart {p : Param} {v : Value} (h : w.ApartFor p v) :
    w.Decides True (· = true) p v where
  checks := checks_of_apart hbuilds hsigned h.1
  variadic e hvariadic he :=
    have hapart := h.2 e hvariadic he
    ⟨checks_of_apart hbuilds hsigned hapart.1,
      repeats_itemsConvert ⟨fun _ _ => trivial, fun hnot => absurd trivial hnot⟩
        fun _ => hapart.2⟩

/-! ## Candidates -/

/-- Trying a candidate gives the plan that its parameters match with. -/
theorem foresees_tryCandidate {m : Method} {arguments : List Value}
    (h : ∀ p ∈ m.params, ∀ v ∈ arguments, w.ApartFor p v) :
    ∃ plan, w.Foresees (matchParameters m arguments) (· = plan) ∧
      w.Foresees (tryCandidate m arguments) (·.map Prod.fst = plan) := by
  have hdecides : ∀ p ∈ m.params, ∀ v ∈ arguments, w.Decides True (· = true) p v :=
    fun p hp v hv => decides_of_apart hbuilds hsigned (h p hp v hv)
  obtain ⟨plan, _, hmatch, rfl, htry⟩ := repeats_tryCandidate (by rfl) hdecides
  exact ⟨plan, hmatch.foresees trivial, htry.foresees trivial⟩

end

/-- The candidate that is selected is the first one whose parameters match. -/
theorem foresees_resolve {candidates : List Method} {arguments : List Value}
    {plans : Method → Option Plan}
    (h : ∀ m ∈ candidates, w.Foresees (tryCandidate m arguments) (·.map Prod.fst = plans m)) :
    w.Foresees (resolve candidates arguments) (·.map Prod.fst = candidates.findSome? plans) := by
  -- A candidate that does not match leaves the rest the same choice as at the start.
  induction candidates with
  | nil => exact .pure rfl
  | cons m rest ih =>
    refine .bind (tidy_tryCandidate m arguments) (fun found => ?_) (h m List.mem_cons_self)
      fun found hfound => ?_
    · cases found with
      | some found => exact .pure _
      | none => exact (tidy_resolve rest arguments).ascends
    · rw [List.findSome?_cons, ← hfound]
      cases found with
      | some found => exact .pure rfl
      | none => exact ih fun m hm => h m (List.mem_cons_of_mem _ hm)

/-! ## What matched is extracted -/

/-- Only a table that is read item by item needs more than reading without items. -/
theorem extract_eq_readAs {c : Conversion} (h : ∀ e, c ≠ .arrayTable e) (v : Value) :
    c.extract v = readAs noItems c v := by
  unfold Conversion.extract
  cases c with
  | arrayTable e => exact absurd rfl (h e)
  | _ => rfl

/-- Whether a conversion that was picked for a value reads it. -/
theorem extract_isSome {t : HostType} {v : Value} {c : Conversion} (hpick : w.pick t v = some c) :
    (c.extract v w).1.isSome = w.fulfils c v := by
  have hnot (e : HostType) : c ≠ .arrayTable e := World.pick_ne_arrayTable hpick e
  rw [extract_eq_readAs hnot, readAs_isSome fun e he => absurd he (hnot e)]

/-- What was checked is extracted after that, but for a delegate without a call signature. -/
theorem extract_of_checkType {t : HostType} {v : Value} {c : Conversion} {w w₁ : World}
    (hbuilds : w.builds = true) (hcheck : checkType t v w = (some c, w₁))
    (hlist : (w.list? t v).isSome = true → w.Steady ∧ w.Apart t v ∧
      (c.extract v w₁).2.machine.nextRef ≤ IntegerKind.i32.hi) :
    w.Unsigned t v ∧ (c.extract v w₁).1 = none ∨ (c.extract v w₁).1.isSome = true := by
  cases he : w.list? t v with
  | none =>
    have hmatch : checkType t v w = (w.pick t v, w) := matchType_eq he
    obtain ⟨hpick, rfl⟩ := Prod.mk.inj (hmatch.symm.trans hcheck)
    rw [← Option.isNone_iff_eq_none, ← Option.not_isSome, extract_isSome hpick]
    by_cases hunsigned : w.Unsigned t v
    · rw [World.fulfils_of_unsigned hunsigned hpick]
      exact .inl ⟨hunsigned, rfl⟩
    · exact .inr ((World.fulfils_of_pick hbuilds hpick).resolve_right hunsigned)
  | some e =>
    rw [he] at hlist
    obtain ⟨hsteady, hapart, hlimit⟩ := hlist rfl
    have hlimit₁ : w₁.machine.nextRef ≤ IntegerKind.i32.hi :=
      Int.le_trans ((tidy_extract c v).ascends w₁) hlimit
    have hserene := (tidy_checkType t v).serene w hsteady
    have hchoice := foresees_checkType hapart w (.refl w) hsteady
    rw [hcheck] at hserene hchoice
    have hserene := hserene hlimit₁
    have hchoice : some c = w.choice (w.whole t v) t v := hchoice hlimit₁
    have hunsigned : ¬ w.Unsigned t v := by
      rintro ⟨f, name, cls, rfl, -⟩
      obtain ⟨-, ⟨r, hr⟩, -⟩ := World.list?_eq_some he
      cases hr
    exact .inr (foresees_extract_of_choice hbuilds hunsigned hapart hchoice.symm w₁
      hserene.undisturbed hserene.steady hlimit)

/-- Nil stands for an argument that is not there. -/
theorem Machine.value_of_typeAt {m : Machine} {i : Int}
    (h : m.typeAt i = .none ∨ m.typeAt i = .nil) : m.value i = .nil := by
  unfold typeAt value at *
  cases hslot : m.slot? i with
  | none => rfl
  | some p =>
    rw [hslot] at h
    dsimp only at h ⊢
    cases hv : m.stack.getD p .nil with
    | nil => rfl
    | _ =>
      rw [hv] at h
      obtain h | h := h <;> cases h

/-- Nil matches the types that take null, and gives null. -/
theorem checkType_nil (t : HostType) (w : World) :
    checkType t .nil w = (if t.takesNull then some t.conversion else none, w) := by
  have hlist : w.list? t .nil = none := by
    unfold World.list?
    cases t.unwrapNullable <;> rfl
  rw [← w.pick_nil t]
  exact matchType_eq hlist

theorem extract_null {t : HostType} (ht : t.takesNull = true) (w : World) :
    t.conversion.extract .nil w = (some .null, w) := by
  rw [extract_eq_readAs t.conversion_ne_arrayTable]
  exact readAs_nil noItems ht w

/-- What `checkType` accepts is extracted right after: the value conforms to the type, with cells
that are new for it, unless a function is to become a delegate of a class without a call signature.
Nil, or an argument that is not there, matches exactly the types that take null and gives null. And
resolving selects the first candidate whose parameters match, with its plan, if all delegate classes
have a call signature.

A table that is read item by item is read twice. For such a table, and for a call, the numbers of
references are taken to be in range, the slots of the registry table to be as references left
them, memory to be settled, and what is read not to be the registry table. -/
theorem match_extracts (w : World) (hw : w.Sound) (hbuilds : w.builds = true) :
    (∀ t v c w₁, checkType t v w = (some c, w₁) →
      ((w.list? t v).isSome = true → w.Steady ∧ w.Apart t v ∧
        (c.extract v w₁).2.machine.nextRef ≤ IntegerKind.i32.hi) →
      w.Unsigned t v ∧ (c.extract v w₁).1 = none ∨
      ∃ x N w₂, c.extract v w₁ = (some x, w₂) ∧ w₁.Makes N x.refs w₂ ∧
        w₂.Conforms (fun o => .object o ∈ N) t x) ∧
    (∀ t i, w.machine.typeAt i = .none ∨ w.machine.typeAt i = .nil →
      (checkType t (w.machine.value i) w).1.isSome = t.takesNull ∧
      ∀ c w₁, checkType t (w.machine.value i) w = (some c, w₁) →
        c.extract (w.machine.value i) w₁ = (some .null, w₁)) ∧
    (∀ candidates arguments, w.Steady → w.catalog.Signed →
      (∀ m ∈ candidates, ∀ p ∈ m.params, ∀ v ∈ arguments, w.ApartFor p v) →
      (∀ m ∈ candidates,
        (matchParameters m arguments w).2.machine.nextRef ≤ IntegerKind.i32.hi) →
      (resolve candidates arguments w).2.machine.nextRef ≤ IntegerKind.i32.hi →
      (resolve candidates arguments w).1.map Prod.fst =
        candidates.findSome? fun m => (matchParameters m arguments w).1) := by
  refine ⟨fun t v c w₁ hcheck hlist => ?_, fun t i hi => ?_,
    fun candidates arguments hsteady hsigned hapart hlimits hlimit => ?_⟩
  · refine (extract_of_checkType hbuilds hcheck hlist).imp_right fun hsome => ?_
    obtain ⟨hmakes, hreads⟩ := chooses_checkType t v w hw
    rw [hcheck] at hmakes hreads
    have hgives := extract_converts (hreads c rfl) v w₁ hmakes.sound
    cases hr : c.extract v w₁ with | mk r w₂
    rw [hr] at hsome hgives
    obtain ⟨x, rfl⟩ := Option.isSome_iff_exists.mp hsome
    obtain ⟨N, hN, hx⟩ := hgives
    exact ⟨x, N, w₂, rfl, hN, hx⟩
  · rw [Machine.value_of_typeAt hi, checkType_nil]
    refine ⟨?_, fun c w₁ hcheck => ?_⟩
    · cases t.takesNull <;> rfl
    · obtain ⟨hc, rfl⟩ := Prod.mk.inj hcheck
      split at hc
      · rename_i htakes
        cases hc
        exact extract_null htakes w
      · cases hc
  · refine foresees_resolve (fun m hm => ?_) w (.refl w) hsteady hlimit
    obtain ⟨plan, hmatch, htry⟩ := foresees_tryCandidate hbuilds hsigned (hapart m hm)
    have hplan : (matchParameters m arguments w).1 = plan :=
      hmatch w (.refl w) hsteady (hlimits m hm)
    rw [hplan]
    exact htry

/-! ### Lists of lists of functions -/

/-- A table with one item. -/
def listOf (v : Value) : Table :=
  { entries := [⟨.integer 1, .number (Number.ofInt 1), .strong v⟩] }

/-- A list of a list of a function is on the stack, and so is the registry table, which keeps the
inner list under the first reference. -/
def listsWorld : World where
  tables := ⟨#[some (listOf (.table ⟨3⟩)), some {}, some { weakValues := true },
    some (listOf (.function ⟨0⟩)), some (listOf (.table ⟨3⟩))]⟩
  functions := ⟨#[some ⟨.none, .script []⟩]⟩
  machine := {
    id := 0, registry := ⟨0⟩, globals := ⟨1⟩, nextRef := 2, appData := .session
    stack := #[.table ⟨4⟩, .table ⟨0⟩]
    session := some { id := 0, options := {}, adapters := .build, objects := ⟨2⟩ } }

def functionLists : HostType := .array (.array (.handle .function))

/-- Two overloads: a truth value, or a list of lists of functions. -/
def listsCandidates : List Method :=
  let method (name : String) (type : HostType) : Method := {
    name, declaringType := "Demo.Lists", params := [⟨type, .input, none, false⟩], ret := .void
    body := some (.statements []) }
  [method "flag" .bool, method "lists" functionLists]

theorem listsWorld_sound : listsWorld.Sound where
  dropped _ h := absurd h List.not_mem_nil
  held c r hr := by
    cases c with
    | table t => exact World.made_of_table hr
    | function f =>
      have hr : r ∈ ((listsWorld.functions.get? f.index).map Function.refs).getD [] := hr
      obtain ⟨_ | i⟩ := f
      · exact absurd hr List.not_mem_nil
      · rw [Store.get?_eq_none (s := listsWorld.functions) (Nat.succ_le_succ (Nat.zero_le i))] at hr
        exact absurd hr List.not_mem_nil
    | handle h => exact absurd hr List.not_mem_nil
    | dispatcher d => exact absurd hr (Store.not_mem_refs_empty d.index Dispatcher.refs r)
    | userdata u => exact absurd hr (Store.not_mem_refs_empty u.index Userdata.refs r)
    | object o => exact absurd hr (Store.not_mem_refs_empty o.index HostObject.refs r)
    | cell c => exact absurd hr (Store.not_mem_refs_empty c.index Cell.refs r)
  exposed o ho := by
    obtain ⟨s, id, hs, ho⟩ := ho
    cases hs
    cases ho
  keyed s hs := by
    cases hs
    exact Catalog.isKeyed_initial

/-- There are five tables and one function, and each of them is held. -/
theorem listsWorld_settled : listsWorld.Settled := by
  intro v hv r hr
  cases v with
  | table t =>
    obtain rfl := List.mem_singleton.mp hr
    have hlt : t.index < 5 := listsWorld.tables.lt_next_of_contains hv
    obtain ⟨i⟩ := t
    exact (by decide +kernel : ∀ i < 5, listsWorld.holds (.table ⟨i⟩) = true) i hlt
  | function f =>
    obtain rfl := List.mem_singleton.mp hr
    have hlt : f.index < 1 := listsWorld.functions.lt_next_of_contains hv
    obtain ⟨i⟩ := f
    exact (by decide +kernel : ∀ i < 1, listsWorld.holds (.function ⟨i⟩) = true) i hlt
  | userdata u => exact absurd (listsWorld.userdata.lt_next_of_contains hv) (Nat.not_lt_zero _)
  | _ => exact absurd hr List.not_mem_nil

theorem listsWorld_steady : listsWorld.Steady where
  settled := listsWorld_settled
  frame := Nat.zero_le _
  alive := ⟨_, rfl⟩
  slots := by
    have hentry (k : Key) (hk : k ≠ .integer 1) : (listOf (.table ⟨3⟩)).find? k = none := by
      exact List.find?_eq_none.mpr fun e he h => hk (by
        obtain rfl := List.mem_singleton.mp he
        exact (beq_iff_eq.mp h).symm)
    have hbare (k : Key) (hk : k ≠ .integer 1) : (listOf (.table ⟨3⟩)).IsBare k := fun e he => by
      rw [hentry k hk] at he
      cases he
    refine ⟨[], ?_⟩
    exact {
      strong := rfl
      field := hbare _ (Table.text_ne_integer _ 1)
      free := by
        show Reference.head ((listOf (.table ⟨3⟩)).getText _ Reference.freeField) ≤ 0
        unfold Table.getText Table.getKey
        rw [hentry _ (Table.text_ne_integer _ 1)]
        exact Int.le_refl 0
      nodup := .nil
      old := fun _ h => absurd h List.not_mem_nil
      bare := fun _ h => absurd h List.not_mem_nil
      fresh := fun r hr => hbare _ fun he => by
        obtain rfl := Key.integer.inj he
        exact absurd hr (by decide) }
  positive := by decide
  made := listsWorld_sound.exposed

theorem listsWorld_apart : listsWorld.Apart functionLists (.table ⟨4⟩) := by
  intro _ t ht
  cases ht
  refine ⟨by decide, fun x hx _ t ht => ?_⟩
  obtain rfl : x = .table ⟨3⟩ := List.mem_singleton.mp hx
  cases ht
  exact ⟨by decide, fun _ _ => trivial⟩

/-- The list of a list of a function is extracted as it was matched, no argument matches its type,
and of two overloads the second one, which takes it, is selected. -/
theorem match_extracts_lists :
    listsWorld.Sound ∧ listsWorld.builds = true ∧
    (∃ c w₁ x N w₂, checkType functionLists (.table ⟨4⟩) listsWorld = (some c, w₁) ∧
      c.extract (.table ⟨4⟩) w₁ = (some x, w₂) ∧ w₁.Makes N x.refs w₂ ∧
      w₂.Conforms (fun o => .object o ∈ N) functionLists x) ∧
    (checkType functionLists (listsWorld.machine.value 3) listsWorld).1.isSome = true ∧
    (resolve listsCandidates [.table ⟨4⟩] listsWorld).1.map (·.1.method.name) = some "lists" := by
  obtain ⟨hextract, hnil, hresolve⟩ := match_extracts listsWorld listsWorld_sound rfl
  refine ⟨listsWorld_sound, rfl, ?_, (hnil functionLists 3 (.inl rfl)).1, ?_⟩
  · have hmatches : (checkType functionLists (.table ⟨4⟩) listsWorld).1.isSome = true := by
      decide +kernel
    have hlimit : ((checkType functionLists (.table ⟨4⟩) listsWorld).1.all fun c =>
        let w₁ := (checkType functionLists (.table ⟨4⟩) listsWorld).2
        (c.extract (.table ⟨4⟩) w₁).2.machine.nextRef ≤ IntegerKind.i32.hi) = true := by
      decide +kernel
    cases hcheck : checkType functionLists (.table ⟨4⟩) listsWorld with | mk r w₁
    rw [hcheck] at hmatches hlimit
    obtain ⟨c, rfl⟩ := Option.isSome_iff_exists.mp hmatches
    have hlimit : (c.extract (.table ⟨4⟩) w₁).2.machine.nextRef ≤ IntegerKind.i32.hi :=
      of_decide_eq_true hlimit
    have hunsigned : ¬ listsWorld.Unsigned functionLists (.table ⟨4⟩) := by
      rintro ⟨f, name, cls, hv, -⟩
      cases hv
    obtain ⟨hexception, -⟩ | ⟨x, N, w₂, hx, hmakes, hconforms⟩ :=
      hextract functionLists (.table ⟨4⟩) c w₁ hcheck
        fun _ => ⟨listsWorld_steady, listsWorld_apart, hlimit⟩
    · exact absurd hexception hunsigned
    · exact ⟨c, w₁, x, N, w₂, rfl, hx, hmakes, hconforms⟩
  · have hselected := hresolve listsCandidates [.table ⟨4⟩] listsWorld_steady
      (.of_all (by decide)) (fun m hm p hp v hv => ?_) (by decide +kernel) (by decide +kernel)
    · have hname : (listsCandidates.findSome? fun m =>
          (matchParameters m [.table ⟨4⟩] listsWorld).1).map (·.method.name) = some "lists" := by
        decide +kernel
      rw [← hselected, Option.map_map] at hname
      exact hname
    · obtain rfl := List.mem_singleton.mp hv
      obtain rfl | hm := List.mem_cons.mp hm
      · obtain rfl := List.mem_singleton.mp hp
        exact ⟨trivial, nofun⟩
      · obtain rfl := List.mem_singleton.mp hm
        obtain rfl := List.mem_singleton.mp hp
        exact ⟨listsWorld_apart, nofun⟩

/-- The registry table, read as a list of lists of functions, is matched but not extracted: matching
keeps the function under the second reference, where the second reading finds it as an item. -/
theorem registry_table_not_extracted :
    listsWorld.Sound ∧ listsWorld.builds = true ∧ listsWorld.machine.value 2 = .table ⟨0⟩ ∧
    ¬ listsWorld.Unsigned functionLists (.table ⟨0⟩) ∧
    ∃ c w₁, checkType functionLists (.table ⟨0⟩) listsWorld = (some c, w₁) ∧
      (c.extract (.table ⟨0⟩) w₁).1 = none := by
  have hmatches : (checkType functionLists (.table ⟨0⟩) listsWorld).1.isSome = true := by
    decide +kernel
  have hfails : ((checkType functionLists (.table ⟨0⟩) listsWorld).1.all fun c =>
      (c.extract (.table ⟨0⟩) (checkType functionLists (.table ⟨0⟩) listsWorld).2).1.isNone) =
        true := by decide +kernel
  refine ⟨listsWorld_sound, rfl, by decide, ?_, ?_⟩
  · rintro ⟨f, name, cls, hv, -⟩
    cases hv
  · cases hcheck : checkType functionLists (.table ⟨0⟩) listsWorld with | mk r w₁
    rw [hcheck] at hmatches hfails
    obtain ⟨c, rfl⟩ := Option.isSome_iff_exists.mp hmatches
    exact ⟨c, w₁, rfl, Option.isNone_iff_eq_none.mp hfails⟩

end ScriptBridge
