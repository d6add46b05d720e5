import ScriptBridge.Proofs.Conversion.Plain

/-!
# What trying a candidate comes to

Candidates are tried one after the other, and every try may make references, handles and objects and
let go of them again. What a try comes to is settled before the first one nevertheless, because no
try changes what the next one looks at. Tables are read item by item, which needs a steady world and
that reading stays clear of the registry table; other values need neither.

1. `World.Between`, `World.Repeats`: the worlds between tries, and what an action gives in all of
   them.
2. `repeats_checkType`, `repeats_itemsConvert`: one argument. `World.Decides` is what the rest needs
   to know of it.
3. `repeats_matchParameters`, `repeats_tryCandidate`: a whole candidate, by the recursions of
   matching and of replaying.
-/

namespace ScriptBridge

variable {w : World} {tables : Prop}

/-! ## Worlds between tries -/

/-- A later world in which arguments look as they did. `tables` says that there are tables among
them. -/
structure World.Between (w : World) (tables : Prop) (w' : World) : Prop where
  serene : tables → w.Undisturbed w' ∧ w'.Steady
  retains : ¬ tables → w.Retains w'

theorem World.Between.refl (hsteady : tables → w.Steady)
    (hmade : ¬ tables → ∀ o, w.Exposes o → ¬ w.IsUnmade (.object o)) : w.Between tables w :=
  ⟨fun ht => ⟨.refl w, hsteady ht⟩, fun hnot => .refl (hmade hnot)⟩

/-- In every such world the action gives a result with a property and leads to such a world, as long
as numbers of references are in range where tables are read. -/
def World.Repeats {α : Type} (w : World) (tables : Prop) (x : Action α) (P : α → Prop) : Prop :=
  ∀ w', w.Between tables w' → (tables → (x w').2.machine.nextRef ≤ IntegerKind.i32.hi) →
    P (x w').1 ∧ w.Between tables (x w').2

namespace World.Repeats

variable {α β : Type} {x : Action α} {f : α → Action β} {P : α → Prop} {Q : β → Prop}

protected theorem pure {a : α} (h : P a) : w.Repeats tables (pure a) P := fun _ hw _ => ⟨h, hw⟩

protected theorem bind (hf : ∀ a, Ascends (f a)) (h : w.Repeats tables x P)
    (h' : ∀ a, P a → w.Repeats tables (f a) Q) : w.Repeats tables (x >>= f) Q := by
  intro w' hw hlimit
  obtain ⟨ha, hbetween⟩ := h w' hw fun ht => Int.le_trans (hf _ _) (hlimit ht)
  exact h' _ ha _ hbetween hlimit

/-- The rest of an action after a result that is known. -/
protected theorem known {a : α} (hf : ∀ a, Ascends (f a)) (h : w.Repeats tables x (· = a))
    (h' : w.Repeats tables (f a) Q) : w.Repeats tables (x >>= f) Q :=
  .bind hf h fun _ he => he ▸ h'

/-- The same where the result of the rest is to be found. -/
theorem settled {a : α} {R : β → Prop} (hf : ∀ a, Ascends (f a)) (h : w.Repeats tables x (· = a))
    (h' : ∃ r, w.Repeats tables (f a) (· = r) ∧ R r) :
    ∃ r, w.Repeats tables (x >>= f) (· = r) ∧ R r := by
  obtain ⟨r, hrest, hr⟩ := h'
  exact ⟨r, .known hf h hrest, hr⟩

theorem mono {P' : α → Prop} (h : w.Repeats tables x P) (hP : ∀ a, P a → P' a) :
    w.Repeats tables x P' := fun w' hw hlimit =>
  have ⟨ha, hbetween⟩ := h w' hw hlimit
  ⟨hP _ ha, hbetween⟩

theorem of_tables (ht : tables) (hx : Tidy x) (h : w.Foresees x P) : w.Repeats tables x P := by
  intro w' hw hlimit
  obtain ⟨hundisturbed, hsteady⟩ := hw.serene ht
  have hserene := hx.serene w' hsteady (hlimit ht)
  exact ⟨h w' hundisturbed hsteady (hlimit ht),
    fun _ => ⟨hundisturbed.trans hserene.undisturbed, hserene.steady⟩, fun hnot => absurd ht hnot⟩

theorem of_plain (hnot : ¬ tables) (hx : Retentive x) (h : ∀ w', w.Retains w' → P (x w').1) :
    w.Repeats tables x P := by
  intro w' hw _
  have hretains := hw.retains hnot
  exact ⟨h w' hretains, fun ht => absurd ht hnot,
    fun _ => hretains.trans (hx w' hretains.made)⟩

/-- An action whose result does not depend on the world. -/
theorem of_answers (htidy : Tidy x) (hx : Retentive x) (h : ScriptBridge.Answers x P) :
    w.Repeats tables x P := by
  by_cases ht : tables
  · exact .of_tables ht htidy fun w' _ _ _ => h w'
  · exact .of_plain ht hx fun w' _ => h w'

/-- Where tables are read this is what is foreseen. -/
theorem foresees (ht : tables) (h : w.Repeats tables x P) : w.Foresees x P :=
  fun w' hundisturbed hsteady hlimit =>
    (h w' ⟨fun _ => ⟨hundisturbed, hsteady⟩, fun hnot => absurd ht hnot⟩ fun _ => hlimit).1

end World.Repeats

/-! ## One argument -/

/-- An argument is a table only where tables are read, and on the stack if it is a userdata. -/
structure World.Legible (w : World) (tables : Prop) (v : Value) : Prop where
  table : ∀ t, v = .table t → tables
  seated : ¬ tables → w.Seats v

theorem World.Legible.plain {v : Value} (h : w.Legible tables v) (hnot : ¬ tables) (t : TableRef) :
    v ≠ .table t := fun ht => hnot (h.table t ht)

/-- Whether the conversion reads the value is settled, and is one of the answers that may be. -/
def World.Regards (w : World) (tables : Prop) (may : Bool → Prop) (c : Conversion) (v : Value) :
    Prop :=
  ∃ b, may b ∧ w.Repeats tables (c.extract v) (·.isSome = b)

/-- It is settled whether the value matches the type, and then whether it is read. -/
def World.Checks (w : World) (tables : Prop) (may : Bool → Prop) (t : HostType) (v : Value) :
    Prop :=
  ∃ c, w.Repeats tables (checkType t v) (· = c) ∧ ∀ c', c = some c' → w.Regards tables may c' v

/-- It is settled whether the value is a table that is read item by item. -/
def World.Gathers (w : World) (tables : Prop) (may : Bool → Prop) (e : HostType) (v : Value) :
    Prop :=
  ∃ b, w.Repeats tables (itemsConvert (tableToArray e) v) (· = b) ∧
    (b = true → w.Regards tables may (.arrayTable e) v)

/-- What a parameter makes of an argument is settled. -/
structure World.Decides (w : World) (tables : Prop) (may : Bool → Prop) (p : Param) (v : Value) :
    Prop where
  checks : w.Checks tables may p.type v
  variadic : ∀ e, p.variadic = true → p.element? = some e →
    w.Checks tables may e v ∧ w.Gathers tables may e v

section

variable {c : Conversion} {t e : HostType} {v : Value} (hv : w.Legible tables v)
include hv

theorem repeats_extract (hlisted : tables → ∀ e, c = .arrayTable e → w.Listed (w.Apart e) v) :
    ∃ b, w.Repeats tables (c.extract v) (·.isSome = b) := by
  by_cases ht : tables
  · exact ⟨w.extracts c v, .of_tables ht (tidy_extract c v) (foresees_extract (hlisted ht))⟩
  · refine ⟨w.fulfils c v, .of_plain ht (retentive_extract (hv.plain ht) c) fun w' hw => ?_⟩
    rw [extract_plain (hv.plain ht), (hw.views (hv.plain ht) (hv.seated ht)).fulfils]

theorem repeats_checkType (hapart : tables → w.Apart t v) :
    w.Checks tables (fun _ => True) t v := by
  by_cases ht : tables
  · refine ⟨_, .of_tables ht (tidy_checkType t v) (foresees_checkType (hapart ht)), fun c hc => ?_⟩
    obtain ⟨b, hb⟩ := repeats_extract (c := c) hv fun _ e he => by
      subst he
      exact (hapart ht).listed_of_choice hc
    exact ⟨b, trivial, hb⟩
  · have hlist (w' : World) : w'.list? t v = none := by
      unfold World.list?
      cases v with
      | table r => exact absurd rfl (hv.plain ht r)
      | _ => cases t.unwrapNullable <;> rfl
    have hmatch (w' : World) : checkType t v w' = (w'.pick t v, w') := matchType_eq (hlist w')
    have hretentive : Retentive (checkType t v) := fun w' hmade => by
      rw [hmatch]
      exact .refl hmade
    refine ⟨w.pick t v, .of_plain ht hretentive fun w' hw => ?_, fun c _ => ?_⟩
    · rw [hmatch]
      exact (hw.views (hv.plain ht) (hv.seated ht)).pick t
    · obtain ⟨b, hb⟩ := repeats_extract (c := c) hv fun h => absurd h ht
      exact ⟨b, trivial, hb⟩

theorem repeats_itemsConvert (hlisted : tables → w.Listed (w.Apart e) v) :
    w.Gathers tables (· = true) e v := by
  by_cases ht : tables
  · have hitems :=
      foresees_itemsConvert (tidy_tableToArray e v) (foresees_tableToArray (hlisted ht))
    refine ⟨_, .of_tables ht (tidy_itemsConvert (tidy_tableToArray e) v) hitems, fun hlist => ?_⟩
    have hextracts : w.extracts (.arrayTable e) v = true := by
      show (v.isNil || w.isList (w.reads e) v) = true
      rw [hlist, Bool.or_true]
    have hread := foresees_extract (c := .arrayTable e) fun _ he => by
      cases he
      exact hlisted ht
    rw [hextracts] at hread
    exact ⟨true, rfl, .of_tables ht (tidy_extract _ v) hread⟩
  · have hnone (w' : World) : itemsConvert (tableToArray e) v w' = (false, w') := by
      cases v with
      | table r => exact absurd rfl (hv.plain ht r)
      | _ => rfl
    refine ⟨false, .of_plain ht (fun w' hmade => ?_) fun w' _ => ?_, nofun⟩
    · rw [hnone]
      exact .refl hmade
    · rw [hnone]

end

/-- Reading the value for a parameter does not come to the registry table. -/
def World.ApartFor (w : World) (p : Param) (v : Value) : Prop :=
  w.Apart p.type v ∧ ∀ e, p.variadic = true → p.element? = some e →
    w.Apart e v ∧ w.Listed (w.Apart e) v

variable {may : Bool → Prop}

theorem World.Gathers.mono {e : HostType} {v : Value} (hmay : may true)
    (h : w.Gathers tables (· = true) e v) : w.Gathers tables may e v := by
  obtain ⟨b, hitems, hreads⟩ := h
  refine ⟨b, hitems, fun hb => ?_⟩
  obtain ⟨_, rfl, hread⟩ := hreads hb
  exact ⟨true, hmay, hread⟩

theorem World.Legible.decides {p : Param} {v : Value} (hv : w.Legible tables v)
    (hapart : tables → w.ApartFor p v) : w.Decides tables (fun _ => True) p v where
  checks := repeats_checkType hv fun ht => (hapart ht).1
  variadic e hvariadic he :=
    ⟨repeats_checkType hv fun ht => ((hapart ht).2 e hvariadic he).1,
      (repeats_itemsConvert hv fun ht => ((hapart ht).2 e hvariadic he).2).mono trivial⟩

/-! ## Replaying -/

/-- The conversions of a run read the arguments from the first one on. -/
def World.RegardsRun (w : World) (tables : Prop) (may : Bool → Prop) :
    List Conversion → List Value → Prop
  | [], _ => True
  | c :: cs, arguments => w.Regards tables may c (arguments.head?.getD .nil) ∧
      RegardsRun w tables may cs arguments.tail

/-- It is settled whether the source gives a value. -/
def World.Serves (w : World) (tables : Prop) (may : Bool → Prop) (rest : List Value) :
    ArgumentSource → Prop
  | .single c => w.Regards tables may c (rest.head?.getD .nil)
  | .run _ cs => w.RegardsRun tables may cs rest
  | .emptyArray _ => True

/-- The same for a slot. -/
def World.Supplies (w : World) (tables : Prop) (may : Bool → Prop) (arguments : List Value)
    (s : ArgumentSlot) : Prop :=
  w.Serves tables may (arguments.drop s.offset) s.source

theorem repeats_release {P : Unit → Prop} (refs : List Ref) (h : P ()) :
    w.Repeats tables (release refs) P :=
  .of_answers (tidy_release refs) (retentive_release refs) fun _ => h

section

variable (hmay : may true)
include hmay

theorem repeats_extractRun {cs : List Conversion} {arguments : List Value}
    (h : w.RegardsRun tables may cs arguments) : ∃ b, may b ∧ ∀ position done,
      w.Repeats tables (extractRun cs arguments position done) (·.isOk = b) := by
  induction cs generalizing arguments with
  | nil => exact ⟨true, hmay, fun _ _ => .pure rfl⟩
  | cons c cs ih =>
    obtain ⟨⟨b, hb, hread⟩, hrest⟩ := h
    obtain ⟨b', hb', hrun⟩ := ih hrest
    -- A conversion that fails ends the run; otherwise the rest of it decides.
    refine ⟨b && b', by cases b <;> assumption, fun position done => ?_⟩
    refine .bind (fun found => ?_) hread fun found hfound => ?_
    · cases found with
      | some item => exact (tidy_extractRun cs _ _ _).ascends
      | none => exact ((tidy_release _).bind fun _ => .pure _).ascends
    · subst hfound
      cases found with
      | some item => exact hrun _ _
      | none =>
        exact .bind (fun _ => .pure _) (repeats_release (P := fun _ => True) _ trivial)
          fun _ _ => .pure rfl

theorem repeats_slotExtract {arguments : List Value} {s : ArgumentSlot}
    (h : w.Supplies tables may arguments s) :
    ∃ b, may b ∧ w.Repeats tables (s.extract arguments) (·.isOk = b) := by
  have hnewArray (e : HostType) (items : Array HostValue) : w.Repeats tables
      (do return .ok (.object (← newArray e items)) : Action (Except ReplayError HostValue))
      (·.isOk = true) :=
    .bind (fun _ => .pure _) (.of_answers (P := fun _ => True) (tidy_newArray e items)
      (retentive_newArray e items) fun _ => trivial) fun _ _ => .pure rfl
  unfold World.Supplies at h
  unfold ArgumentSlot.extract
  cases hsource : s.source with
  | single c =>
    rw [hsource] at h
    obtain ⟨b, hb, hread⟩ := h
    refine ⟨b, hb, .bind (fun found => ?_) hread fun found hfound => ?_⟩
    · cases found <;> exact .pure _
    · subst hfound
      cases found <;> exact .pure rfl
  | run e cs =>
    rw [hsource] at h
    obtain ⟨b, hb, hrun⟩ := repeats_extractRun hmay h
    refine ⟨b, hb, .bind (fun found => ?_) (hrun _ _) fun found hfound => ?_⟩
    · cases found with
      | ok items => exact ((tidy_newArray _ _).bind fun _ => .pure _).ascends
      | error e => exact .pure _
    · subst hfound
      cases found with
      | ok items => exact hnewArray e _
      | error e => exact .pure rfl
  | emptyArray e => exact ⟨true, hmay, hnewArray e #[]⟩

theorem repeats_extractSlots {arguments : List Value} {slots : List ArgumentSlot}
    (h : ∀ s ∈ slots, w.Supplies tables may arguments s) : ∃ b, may b ∧ ∀ done,
      w.Repeats tables (extractSlots arguments slots done) (·.isOk = b) := by
  induction slots with
  | nil => exact ⟨true, hmay, fun _ => .pure rfl⟩
  | cons s rest ih =>
    obtain ⟨b, hb, hslot⟩ := repeats_slotExtract hmay (h s List.mem_cons_self)
    obtain ⟨b', hb', hrest⟩ := ih fun s hs => h s (List.mem_cons_of_mem _ hs)
    refine ⟨b && b', by cases b <;> assumption, fun done => ?_⟩
    refine .bind (fun found => ?_) hslot fun found hfound => ?_
    · cases found with
      | ok v => exact (tidy_extractSlots _ _ _).ascends
      | error e => exact ((tidy_release _).bind fun _ => .pure _).ascends
    · subst hfound
      cases found with
      | ok v => exact hrest _
      | error e =>
        exact .bind (fun _ => .pure _) (repeats_release (P := fun _ => True) _ trivial)
          fun _ _ => .pure rfl

end

/-! ## Matching -/

theorem repeats_matchRun {e : HostType} {arguments : List Value}
    (h : ∀ v ∈ arguments, w.Checks tables may e v) :
    ∃ cs, w.Repeats tables (matchRun e arguments) (· = cs) ∧
      w.RegardsRun tables may cs arguments := by
  induction arguments with
  | nil => exact ⟨[], .pure rfl, trivial⟩
  | cons v rest ih =>
    obtain ⟨c, hcheck, hreads⟩ := h v List.mem_cons_self
    obtain ⟨cs, hrun, hrest⟩ := ih fun x hx => h x (List.mem_cons_of_mem v hx)
    unfold matchRun
    refine World.Repeats.settled (fun c => ?_) hcheck ?_
    · cases c with
      | some c => exact ((tidy_matchRun e rest).bind fun _ => .pure _).ascends
      | none => exact .pure _
    · cases c with
      | none => exact ⟨[], .pure rfl, trivial⟩
      | some c =>
        exact ⟨c :: cs, .known (fun _ => .pure _) hrun (.pure rfl), hreads c rfl, hrest⟩

theorem repeats_matchVariadic {e : HostType} {v : Value} {rest : List Value}
    (h : ∀ x ∈ v :: rest, w.Checks tables may e x ∧ w.Gathers tables may e x) :
    ∃ r, w.Repeats tables (matchVariadic e (v :: rest)) (· = r) ∧
      ∀ source count, r = some (source, count) → w.Serves tables may (v :: rest) source := by
  obtain ⟨whole, hitems, hreads⟩ := (h v List.mem_cons_self).2
  obtain ⟨cs, hrun, hregards⟩ := repeats_matchRun fun x hx => (h x hx).1
  rw [matchVariadic_cons]
  refine World.Repeats.settled (fun whole => (tidy_sourceOf e _ whole).ascends) hitems ?_
  unfold sourceOf
  cases whole with
  | true =>
    refine ⟨some (.single (.arrayTable e), 1), .pure rfl, ?_⟩
    intro source count hfound
    cases hfound
    exact hreads rfl
  | false =>
    refine World.Repeats.settled (fun cs => ?_) hrun ?_
    · cases cs <;> exact .pure _
    · cases cs with
      | nil => exact ⟨none, .pure rfl, nofun⟩
      | cons c cs =>
        refine ⟨_, .pure rfl, ?_⟩
        intro source count hfound
        cases hfound
        exact hregards

section

variable {arguments : List Value} {f g : Filling} {p : Param} {v : Value} {rest : List Value}

/-- One more slot that is supplied. -/
theorem supplies_slot {source : ArgumentSource} {count : Nat}
    (hf : ∀ s ∈ f.slots, w.Supplies tables may arguments s)
    (h : w.Serves tables may (arguments.drop f.cursor) source) :
    ∀ s ∈ (f.slot p source count).slots, w.Supplies tables may arguments s := by
  intro s hs
  obtain hs | hs := List.mem_append.mp hs
  · exact hf s hs
  · obtain rfl := List.mem_singleton.mp hs
    exact h

theorem supplies_fillDefault (hf : ∀ s ∈ f.slots, w.Supplies tables may arguments s)
    (h : fillDefault f p = some g) : ∀ s ∈ g.slots, w.Supplies tables may arguments s := by
  obtain ⟨v, -, rfl⟩ := Option.map_eq_some_iff.mp h
  exact hf

theorem supplies_fillMissing (hf : ∀ s ∈ f.slots, w.Supplies tables may arguments s)
    (h : fillMissing f p = some g) : ∀ s ∈ g.slots, w.Supplies tables may arguments s := by
  unfold fillMissing at h
  split at h
  · cases h
    exact hf
  · split at h
    · obtain ⟨e, -, rfl⟩ := Option.map_eq_some_iff.mp h
      exact supplies_slot hf trivial
    · cases h

/-- The filling is settled, and so is what its slots give. -/
def World.FillsBy (w : World) (tables : Prop) (may : Bool → Prop) (arguments : List Value)
    (x : Action (Option Filling)) : Prop :=
  ∃ r, w.Repeats tables x (· = r) ∧
    ∀ g, r = some g → ∀ s ∈ g.slots, w.Supplies tables may arguments s

theorem repeats_fillMatched (hrest : arguments.drop f.cursor = v :: rest)
    (hf : ∀ s ∈ f.slots, w.Supplies tables may arguments s)
    (h : ∀ x ∈ arguments, w.Decides tables may p x) {c : Option Conversion}
    (hc : ∀ c', c = some c' → w.Regards tables may c' v) :
    w.FillsBy tables may arguments (fillMatched f p v rest c) := by
  have hdefault : w.FillsBy tables may arguments (pure (fillDefault f p)) :=
    ⟨_, .pure rfl, fun g hg => supplies_fillDefault hf hg⟩
  cases c with
  | some c =>
    refine ⟨_, .pure rfl, fun g hg => ?_⟩
    cases hg
    have hslot : ∀ s ∈ (f.slot p (.single c) 1).slots, w.Supplies tables may arguments s := by
      refine supplies_slot hf ?_
      rw [hrest]
      exact hc c rfl
    unfold Filling.single
    dsimp only
    split
    · exact hslot
    · exact hslot
  | none =>
    unfold fillMatched
    dsimp only
    split
    · rename_i e hvariadic he
      have hrun (x : Value) (hx : x ∈ v :: rest) :=
        (h x (List.mem_of_mem_drop (hrest ▸ hx))).variadic e hvariadic he
      obtain ⟨r, hmatch, hserves⟩ := repeats_matchVariadic hrun
      refine World.Repeats.settled (fun r => ?_) hmatch ?_
      · cases r <;> exact .pure _
      · cases r with
        | none => exact hdefault
        | some found =>
          refine ⟨_, .pure rfl, fun g hg => ?_⟩
          cases hg
          refine supplies_slot hf ?_
          rw [hrest]
          exact hserves _ _ rfl
    · exact hdefault

theorem repeats_fillParam (hf : ∀ s ∈ f.slots, w.Supplies tables may arguments s)
    (h : ∀ x ∈ arguments, w.Decides tables may p x) :
    w.FillsBy tables may arguments (fillParam arguments f p) := by
  by_cases hmode : p.mode = .output
  · rw [fillParam_output hmode]
    refine ⟨_, .pure rfl, fun g hg => ?_⟩
    cases hg
    exact hf
  · cases hrest : arguments.drop f.cursor with
    | nil =>
      rw [fillParam_nil hmode hrest]
      exact ⟨_, .pure rfl, fun g hg => supplies_fillMissing hf hg⟩
    | cons v rest =>
      obtain ⟨c, hcheck, hreads⟩ :=
        (h v (List.mem_of_mem_drop (hrest ▸ List.mem_cons_self))).checks
      obtain ⟨r, hmatched, hslots⟩ := repeats_fillMatched hrest hf h hreads
      rw [fillParam_cons hmode hrest]
      exact ⟨r, .known (fun c => (tidy_fillMatched f p v rest c).ascends) hcheck hmatched, hslots⟩

theorem repeats_fillParams {params : List Param}
    (hf : ∀ s ∈ f.slots, w.Supplies tables may arguments s)
    (h : ∀ p ∈ params, ∀ x ∈ arguments, w.Decides tables may p x) :
    w.FillsBy tables may arguments (fillParams arguments params f) := by
  induction params generalizing f with
  | nil =>
    refine ⟨_, .pure rfl, fun g hg => ?_⟩
    cases hg
    exact hf
  | cons p rest ih =>
    obtain ⟨r, hparam, hslots⟩ := repeats_fillParam hf (h p List.mem_cons_self)
    unfold fillParams
    refine World.Repeats.settled (fun r => ?_) hparam ?_
    · cases r with
      | some f => exact (tidy_fillParams arguments rest f).ascends
      | none => exact .pure _
    · cases r with
      | none => exact ⟨none, .pure rfl, nofun⟩
      | some g => exact ih (hslots g rfl) fun p hp => h p (List.mem_cons_of_mem _ hp)

end

/-! ## Candidates -/

section

variable {m : Method} {arguments : List Value} (hmay : may true)
variable (h : ∀ p ∈ m.params, ∀ v ∈ arguments, w.Decides tables may p v)
include hmay h

/-- Whether the parameters match is settled, and then whether the plan is replayed. -/
theorem repeats_matchParameters : ∃ r, w.Repeats tables (matchParameters m arguments) (· = r) ∧
    ∀ plan, r = some plan → ∃ b, may b ∧
      w.Repeats tables (plan.replay arguments) (·.isOk = b) := by
  obtain ⟨r, hfill, hslots⟩ :=
    repeats_fillParams (f := {}) (fun _ hs => absurd hs List.not_mem_nil) h
  unfold matchParameters
  refine World.Repeats.settled (fun r => ?_) hfill ?_
  · cases r with
    | none => exact .pure _
    | some f =>
      dsimp only
      split <;> exact .pure _
  cases r with
  | none => exact ⟨none, .pure rfl, nofun⟩
  | some f =>
    dsimp only
    cases hcursor : f.cursor != arguments.length with
    | true => exact ⟨none, .pure rfl, nofun⟩
    | false =>
      refine ⟨_, .pure rfl, fun plan hplan => ?_⟩
      cases hplan
      obtain ⟨b, hb, hreplay⟩ := repeats_extractSlots hmay (hslots f rfl)
      refine ⟨b, hb, ?_⟩
      have hcount : ¬ (arguments.length != arguments.length) = true := by simp
      unfold Plan.replay
      rw [if_neg hcount]
      exact hreplay _

/-- What trying the candidate comes to is settled. -/
theorem repeats_tryCandidate : ∃ r b, w.Repeats tables (matchParameters m arguments) (· = r) ∧
    may b ∧ w.Repeats tables (tryCandidate m arguments)
      (·.map Prod.fst = if b then r else none) := by
  obtain ⟨r, hmatch, hreplay⟩ := repeats_matchParameters hmay h
  obtain ⟨b, hb, hok⟩ : ∃ b, may b ∧ ∀ plan, r = some plan →
      w.Repeats tables (plan.replay arguments) (·.isOk = b) := by
    cases r with
    | none => exact ⟨true, hmay, nofun⟩
    | some plan =>
      obtain ⟨b, hb, hok⟩ := hreplay plan rfl
      refine ⟨b, hb, fun plan' he => ?_⟩
      cases he
      exact hok
  refine ⟨r, b, hmatch, hb, .known (fun r => ?_) hmatch ?_⟩
  · cases r with
    | none => exact .pure _
    | some p =>
      refine ((tidy_replay p arguments).bind fun found => ?_).ascends
      cases found <;> exact .pure _
  · cases r with
    | none => exact .pure (ite_self none).symm
    | some plan =>
      refine .bind (fun found => ?_) (hok plan rfl) fun found hfound => ?_
      · cases found <;> exact .pure _
      · subst hfound
        cases found <;> exact .pure rfl

end

end ScriptBridge
