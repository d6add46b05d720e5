import ScriptBridge.Proofs.Bridge.Isolation
import ScriptBridge.Proofs.Memory.Holding

/-!
# Members and classes that are registered late

A base class or a nested type may be registered after members of a class were looked up. What a
look-up finds is remembered for good, so a class that comes later does not change it; what was not
found is not remembered, so the next look-up sees the catalog as it is then.

1. A catalog that grew says of a class what it said before, if it already knew the bases of the
   class and the nested types of the name.
2. `MemberRun` follows registrations and look-ups in any order, and notes for each name the catalog
   and the class with which it was found first. What is remembered is what the noted catalog says.
3. So a look-up of a noted name gives what was found first, and any other asks the catalog of now.
-/

namespace ScriptBridge

variable {c c' : Catalog} {cls : Class} {name : String} {isStatic : Bool}

/-! ## Catalogs that grow -/

namespace Catalog

/-- Every class is found as before. -/
def Extends (c c' : Catalog) : Prop := ∀ n cls, c.find? n = some cls → c'.find? n = some cls

theorem Extends.refl (c : Catalog) : c.Extends c := fun _ _ h => h

theorem Extends.trans {c'' : Catalog} (h : c.Extends c') (h' : c'.Extends c'') :
    c.Extends c'' :=
  fun n cls hn => h' n cls (h n cls hn)

/-- A class of a new name takes no other's place. -/
theorem extends_register (hfree : c.find? cls.name = none) : c.Extends (c.register cls) := by
  intro n cls' hn
  rw [find?_register]
  split
  · rename_i hname
    rw [← hname, hfree] at hn
    cases hn
  · exact hn

/-- The bases of a class and the nested types of a name in it are registered. -/
structure Covers (c : Catalog) (cls : Class) (name : String) : Prop where
  bases : ∀ d ∈ c.hierarchy cls, ∀ base, d.base = some base → ∃ parent, c.find? base = some parent
  nested : ∀ short full, .nested short full ∈ c.membersOf cls name →
    ∃ found, c.find? full = some found

/-- The walk along bases that are known goes on through the same classes. -/
theorem Extends.basesFrom (h : c.Extends c') (limit : Nat) (cls : Class)
    (hbases : ∀ d ∈ c.basesFrom limit cls, ∀ base, d.base = some base →
      ∃ parent, c.find? base = some parent) :
    c'.basesFrom limit cls = c.basesFrom limit cls := by
  induction limit generalizing cls with
  | zero => rfl
  | succ limit ih =>
    unfold Catalog.basesFrom at hbases ⊢
    cases hbase : cls.base with
    | none => rfl
    | some base =>
      obtain ⟨parent, hparent⟩ := hbases cls List.mem_cons_self base hbase
      rw [hbase] at hbases
      simp only [Option.bind_some, hparent, h base parent hparent] at hbases ⊢
      rw [ih parent fun d hd => hbases d (List.mem_cons_of_mem cls hd)]

theorem Extends.membersOf (h : c.Extends c') (hcovers : c.Covers cls name) :
    c'.membersOf cls name = c.membersOf cls name := by
  unfold Catalog.membersOf hierarchy
  rw [h.basesFrom _ _ hcovers.bases]

theorem Extends.groupOf? (h : c.Extends c') (hcovers : c.Covers cls name) {m : Member}
    (hm : m ∈ c.membersOf cls name) : c'.groupOf? m = c.groupOf? m := by
  cases m with
  | nested short full =>
    obtain ⟨found, hfound⟩ := hcovers.nested short full hm
    show some (MemberGroup.nested (c'.find? full)) = some (.nested (c.find? full))
    rw [hfound, h full found hfound]
  | _ => rfl

theorem Extends.findMember? (h : c.Extends c') (hcovers : c.Covers cls name) (isStatic : Bool) :
    c'.findMember? cls name isStatic = c.findMember? cls name isStatic := by
  have hmembers := h.membersOf hcovers
  have hgroups (l : List Member) (hl : ∀ m ∈ l, m ∈ c.membersOf cls name) :
      l.findSome? c'.groupOf? = l.findSome? c.groupOf? := by
    induction l with
    | nil => rfl
    | cons m rest ih =>
      rw [List.findSome?_cons, List.findSome?_cons, h.groupOf? hcovers (hl m List.mem_cons_self),
        ih fun m' hm' => hl m' (List.mem_cons_of_mem m hm')]
  unfold Catalog.findMember? methodsOf
  rw [hmembers, hgroups _ fun m hm => (List.mem_filter.mp hm).1]

/-- A catalog that knew the bases of a class and its nested types of a name says the same of the
name however it grows. -/
theorem Extends.lookUp? (h : c.Extends c') (hcovers : c.Covers cls name) (implicitStatic : Bool)
    (binding : Binding) :
    c'.lookUp? implicitStatic cls binding name = c.lookUp? implicitStatic cls binding name := by
  unfold Catalog.lookUp?
  simp only [h.findMember? hcovers]

end Catalog

/-! ## Steps that leave the members alone -/

variable {w w' : World} {found : FoundMember} {g : MemberGroup}

/-- The function and the dispatcher of a group of methods are in the heap. -/
def World.HasMember (w : World) : FoundMember → Prop
  | .method d f _ => w.functions.contains f.index = true ∧ w.dispatchers.contains d.index = true
  | _ => True

/-- What was found is in the heap and stands for a group. -/
structure World.Answers (w : World) (found : FoundMember) (isStatic : Bool) (g : MemberGroup) :
    Prop where
  stands : w.Stands found isStatic g
  present : w.HasMember found

/-- The same members are remembered, and they are in the heap if they were; and the same classes are
registered. -/
structure World.LeavesMembers (w w' : World) : Prop where
  remembers : w.Remembers w'
  catalog : ∀ s s', w.machine.session = some s → w'.machine.session = some s' →
    s'.catalog = s.catalog
  present : ∀ s', w'.machine.session = some s' → ∀ key found, s'.members.get? key = some found →
    w.HasMember found → w'.HasMember found

namespace World.LeavesMembers

theorem refl (w : World) : w.LeavesMembers w where
  remembers := .refl w
  catalog s s' hs hs' := by rw [Option.some.inj (hs.symm.trans hs')]
  present _ _ _ _ _ h := h

theorem trans {w'' : World} (h : w.LeavesMembers w') (h' : w'.LeavesMembers w'') :
    w.LeavesMembers w'' where
  remembers := h.remembers.trans h'.remembers
  catalog s s'' hs hs'' := by
    obtain ⟨s', hs', -⟩ := h'.remembers.session s'' hs''
    exact (h'.catalog s' s'' hs' hs'').trans (h.catalog s s' hs hs')
  present s'' hs'' key found hfound hpresent := by
    obtain ⟨s', hs', hmemory⟩ := h'.remembers.session s'' hs''
    have hmembers : s''.members = s'.members := congrArg Prod.snd hmemory
    exact h'.present s'' hs'' key found hfound
      (h.present s' hs' key found (hmembers ▸ hfound) hpresent)

end World.LeavesMembers

/-- What the session remembers is held by it, so reclaiming memory leaves the members alone. -/
theorem World.settle_leavesMembers (w : World) : w.LeavesMembers w.settle := by
  refine settle_keeps (P := w.LeavesMembers) (fun w' d rest _ hw _ => ?_)
    (fun w' d rest _ hw hfree => ?_) (.refl w)
  · exact ⟨hw.remembers.trans (.of_same rfl rfl rfl), hw.catalog, hw.present⟩
  have hstep : w'.LeavesMembers (w'.reclaimed d rest) := by
    obtain ⟨queue, hqueue⟩ := session_empty { w' with dropped := rest } d
    have hsession (s' : Session) (hs' : (w'.reclaimed d rest).machine.session = some s') :
        ∃ s, w'.machine.session = some s ∧ s' = { s with releases := queue s } := by
      obtain ⟨s, hs, he⟩ := Option.map_eq_some_iff.mp (hqueue.symm.trans hs')
      exact ⟨s, hs, he.symm⟩
    have hrest : w'.Remembers { w' with dropped := rest } := .of_same rfl rfl rfl
    refine ⟨hrest.trans ((World.empty_remembers _ d).trans (.of_same rfl rfl rfl)),
      fun s s' hs hs' => ?_, fun s' hs' key found hfound hpresent => ?_⟩
    · obtain ⟨s₁, hs₁, rfl⟩ := hsession s' hs'
      rw [Option.some.inj (hs.symm.trans hs₁)]
    · obtain ⟨s, hs, rfl⟩ := hsession s' hs'
      -- The session holds what it remembers, so that is not what goes.
      have hheld {r : Ref} (hr : r ∈ found.refs) : d.ref ≠ r := by
        rintro rfl
        have hmem : d.ref ∈ s.refs := by
          unfold Session.refs
          simp only [List.mem_append, List.mem_flatMap]
          exact .inl (.inl (.inl (.inr ⟨_, Dictionary.mem_of_get? hfound, hr⟩)))
        rw [holds_of_session hs hmem] at hfree
        cases hfree
      cases found with
      | method dispatcher f binding =>
        obtain ⟨hf, hd⟩ := hpresent
        have hfunction : (w'.reclaimed d rest).functions.get? f.index =
            w'.functions.get? f.index :=
          (empty_spares { w' with dropped := rest } d).functions f
            (hheld (by simp [FoundMember.refs]))
        have hdispatcher : (w'.reclaimed d rest).dispatchers.get? dispatcher.index =
            w'.dispatchers.get? dispatcher.index :=
          dispatchers_empty (w := { w' with dropped := rest })
            (hheld (by simp [FoundMember.refs]))
        constructor
        · rw [Store.contains_eq, hfunction]
          exact hf
        · rw [Store.contains_eq, hdispatcher]
          exact hd
      | _ => trivial
  exact hw.trans hstep

/-! ## Looking up in any order -/

/-- The catalog and the class with which a name was found first. -/
abbrev Findings := String × Binding × String → Option (Catalog × Class)

/-- Notes what a name was found with, unless that is noted already. -/
def Findings.note (F : Findings) (key : String × Binding × String) (c : Catalog) (cls : Class) :
    Findings :=
  fun key' => if key = key' then (F key).or (some (c, cls)) else F key'

/-- The worlds a session goes through while classes of new names are registered, members looked up,
and while anything else happens that leaves both alone; with what each name was found with first. -/
inductive MemberRun : Findings → World → Prop
  | opened {w : World} (hempty : ∀ s, w.machine.session = some s → s.members = []) :
      MemberRun (fun _ => none) w
  | registered {F : Findings} {w : World} (h : MemberRun F w) (cls : Class)
      (hfree : ∀ s, w.machine.session = some s → s.catalog.find? cls.name = none) :
      MemberRun F (modifySession (fun s => { s with catalog := s.catalog.register cls }) w).2
  | found {F : Findings} {w : World} (h : MemberRun F w) {s : Session}
      (hs : w.machine.session = some s) (cls : Class) (binding : Binding) (name : String)
      (hfound : (member? cls binding name w).1.isSome = true) :
      MemberRun (F.note (cls.name, binding, name) s.catalog cls) (member? cls binding name w).2
  | missed {F : Findings} {w : World} (h : MemberRun F w) {s : Session}
      (hs : w.machine.session = some s) (cls : Class) (binding : Binding) (name : String)
      (hmissed : (member? cls binding name w).1 = none) :
      MemberRun F (member? cls binding name w).2
  | other {F : Findings} {w w' : World} (h : MemberRun F w) (hsame : w.LeavesMembers w') :
      MemberRun F w'

/-- What the session remembers of a name is what the noted catalog says of it, and nothing is
remembered of the others. -/
structure World.Recalls (F : Findings) (w : World) (s : Session) : Prop where
  unnoted : ∀ key, F key = none → s.members.get? key = none
  noted : ∀ className binding name c cls, F (className, binding, name) = some (c, cls) →
    cls.name = className ∧ c.Extends s.catalog ∧ ∃ found isStatic g,
      s.members.get? (className, binding, name) = some found ∧
        c.lookUp? s.options.implicitStatic cls binding name = some (isStatic, g) ∧
          w.Answers found isStatic g

theorem World.Answers.later (h : w.Answers found isStatic g) (hw : w.Remembers w')
    (hpresent : w.HasMember found → w'.HasMember found) : w'.Answers found isStatic g :=
  ⟨h.stands.later hw, hpresent h.present⟩

/-- A group that is made has its function and its dispatcher, and every other keeps them. -/
theorem foundMember_present {w₁ : World} (h : foundMember cls name isStatic g w = (found, w₁)) :
    w₁.HasMember found ∧ ∀ found', w.HasMember found' → w₁.HasMember found' := by
  have hadded {α : Type} (s : Store α) (a : α) (i : Nat) (hi : s.contains i = true) :
      (s.add a).contains i = true := by
    rw [Store.contains_eq] at hi ⊢
    obtain ⟨b, hb⟩ := Option.isSome_iff_exists.mp hi
    rw [Store.get?_add_of_lt _ _ (Store.lt_next _ hb)]
    exact hi
  have hnew {α : Type} (s : Store α) (a : α) : (s.add a).contains s.next = true := by
    rw [Store.contains_eq, Store.get?_add_next]
    rfl
  cases g with
  | methods candidates =>
    cases h
    refine ⟨⟨hnew _ _, hnew _ _⟩, fun found' hfound' => ?_⟩
    cases found' with
    | method d f binding => exact ⟨hadded _ _ _ hfound'.1, hadded _ _ _ hfound'.2⟩
    | _ => trivial
  | _ =>
    cases h
    exact ⟨trivial, fun _ h => h⟩

/-- A look-up of a name that is not remembered answers what the catalog says, and remembers just
that. -/
theorem member?_answers {s : Session} (hs : w.machine.session = some s) {binding : Binding}
    (hnew : s.members.get? (cls.name, binding, name) = none) :
    (s.catalog.lookUp? s.options.implicitStatic cls binding name = none ∧
      member? cls binding name w = (none, w)) ∨
    ∃ isStatic g found w',
      s.catalog.lookUp? s.options.implicitStatic cls binding name = some (isStatic, g) ∧
      member? cls binding name w = (some found, w') ∧ w'.Answers found isStatic g ∧
      w'.machine.session = some
        { s with members := s.members.insert (cls.name, binding, name) found } ∧
      ∀ found' isStatic' g', w.Answers found' isStatic' g' → w'.Answers found' isStatic' g' := by
  obtain hmissed | ⟨isStatic, g, found, w₁, hlookUp, hmake, -, hmember⟩ := member?_of_new hs hnew
  · exact .inl hmissed
  obtain ⟨found', w₂, hmake', hstands, hremembers, -⟩ := foundMember_stands cls name isStatic g w
  obtain ⟨rfl, rfl⟩ := Prod.mk.inj (hmake.symm.trans hmake')
  obtain ⟨hpresent, hothers⟩ := foundMember_present hmake
  refine .inr ⟨isStatic, g, found, _, hlookUp, hmember, ⟨hstands.withSession _, hpresent⟩, rfl,
    fun found' isStatic' g' h => ?_⟩
  have hlater := h.later hremembers (hothers found')
  exact ⟨hlater.stands.withSession _, hlater.present⟩

/-! ## What a run remembers -/

variable {F : Findings}

theorem World.Recalls.registered {s : Session} (h : w.Recalls F s) {cls : Class}
    (hfree : s.catalog.find? cls.name = none) :
    (w.withSession { s with catalog := s.catalog.register cls }).Recalls F
      { s with catalog := s.catalog.register cls } where
  unnoted := h.unnoted
  noted className binding name c cls' hnoted := by
    obtain ⟨hname, hextends, found, isStatic, g, hfound, hlookUp, hanswers⟩ :=
      h.noted className binding name c cls' hnoted
    exact ⟨hname, hextends.trans (Catalog.extends_register hfree), found, isStatic, g, hfound,
      hlookUp, hanswers.stands.withSession _, hanswers.present⟩

theorem World.Recalls.left {s s' : Session} (h : w.Recalls F s) (hs : w.machine.session = some s)
    (hs' : w'.machine.session = some s') (hsame : w.LeavesMembers w') : w'.Recalls F s' := by
  obtain ⟨s₁, hs₁, hmemory⟩ := hsame.remembers.session s' hs'
  obtain rfl : s = s₁ := Option.some.inj (hs.symm.trans hs₁)
  have hoptions : s'.options = s.options := congrArg Prod.fst hmemory
  have hmembers : s'.members = s.members := congrArg Prod.snd hmemory
  refine ⟨fun key hkey => hmembers ▸ h.unnoted key hkey,
    fun className binding name c cls hnoted => ?_⟩
  obtain ⟨hname, hextends, found, isStatic, g, hfound, hlookUp, hanswers⟩ :=
    h.noted className binding name c cls hnoted
  rw [← hmembers] at hfound
  exact ⟨hname, hsame.catalog s s' hs hs' ▸ hextends, found, isStatic, g, hfound,
    hoptions ▸ hlookUp, hanswers.later hsame.remembers (hsame.present s' hs' _ found hfound)⟩

/-- A name that is found for the first time is noted and remembered with it. -/
theorem World.Recalls.find {s : Session} (h : w.Recalls F s) {binding : Binding}
    (hnew : s.members.get? (cls.name, binding, name) = none)
    (hlookUp : s.catalog.lookUp? s.options.implicitStatic cls binding name = some (isStatic, g))
    (hanswers : w'.Answers found isStatic g)
    (hothers : ∀ found' isStatic' g', w.Answers found' isStatic' g' →
      w'.Answers found' isStatic' g') :
    w'.Recalls (F.note (cls.name, binding, name) s.catalog cls)
      { s with members := s.members.insert (cls.name, binding, name) found } where
  unnoted key hkey := by
    unfold Findings.note at hkey
    rw [Dictionary.get?_insert]
    split at hkey
    · cases (Option.or_eq_none_iff.mp hkey).2
    · rename_i hne
      rw [if_neg hne]
      exact h.unnoted key hkey
  noted className binding' name' c cls' hnoted := by
    unfold Findings.note at hnoted
    rw [Dictionary.get?_insert]
    split at hnoted
    · rename_i heq
      -- What is noted is remembered, and this name was not.
      have hunnoted : F (cls.name, binding, name) = none := by
        cases hF : F (cls.name, binding, name) with
        | none => rfl
        | some p =>
          obtain ⟨c₀, cls₀⟩ := p
          obtain ⟨-, -, _, _, _, hfound, -⟩ := h.noted _ _ _ _ _ hF
          rw [hnew] at hfound
          cases hfound
      rw [if_pos heq]
      rw [hunnoted, Option.none_or] at hnoted
      cases heq
      cases hnoted
      exact ⟨rfl, .refl _, found, isStatic, g, rfl, hlookUp, hanswers⟩
    · rename_i hne
      rw [if_neg hne]
      obtain ⟨hname, hextends, found', isStatic', g', hfound', hlookUp', hanswers'⟩ :=
        h.noted className binding' name' c cls' hnoted
      exact ⟨hname, hextends, found', isStatic', g', hfound', hlookUp',
        hothers _ _ _ hanswers'⟩

/-- A name that is remembered is noted already. -/
theorem World.Recalls.note_eq {s : Session} (h : w.Recalls F s) {binding : Binding}
    (hfound : s.members.get? (cls.name, binding, name) = some found) (c : Catalog) (cls' : Class) :
    F.note (cls.name, binding, name) c cls' = F := by
  funext key
  unfold Findings.note
  split
  · rename_i heq
    cases hF : F (cls.name, binding, name) with
    | none =>
      rw [h.unnoted _ hF] at hfound
      cases hfound
    | some p => rw [← heq, hF, Option.some_or]
  · rfl

/-- What is remembered in a run is what the noted catalogs say. -/
theorem MemberRun.recalls (h : MemberRun F w) {s : Session} (hs : w.machine.session = some s) :
    w.Recalls F s := by
  induction h generalizing s with
  | opened hempty =>
    refine ⟨fun key _ => ?_, fun _ _ _ _ _ hnoted => nomatch hnoted⟩
    rw [hempty s hs]
    rfl
  | @registered F w _ cls hfree ih =>
    obtain ⟨s₀, hs₀, rfl⟩ := Option.map_eq_some_iff.mp hs
    have hrecalls := (ih hs₀).registered (hfree s₀ hs₀)
    rw [modifySession_eq hs₀]
    exact hrecalls
  | @found F w _ s₀ hs₀ cls binding name hfound ih =>
    cases hmember : s₀.members.get? (cls.name, binding, name) with
    | some found =>
      rw [member?_of_remembered hs₀ hmember] at hs ⊢
      obtain rfl : s₀ = s := Option.some.inj (hs₀.symm.trans hs)
      rw [(ih hs₀).note_eq hmember]
      exact ih hs₀
    | none =>
      obtain ⟨-, hmissed⟩ | ⟨isStatic, g, found, w', hlookUp, hmember', hanswers, hs', hothers⟩ :=
        member?_answers hs₀ hmember
      · rw [hmissed] at hfound
        cases hfound
      · rw [hmember'] at hs ⊢
        obtain rfl := Option.some.inj (hs'.symm.trans hs)
        exact (ih hs₀).find hmember hlookUp hanswers hothers
  | @missed F w _ s₀ hs₀ cls binding name hmissed ih =>
    cases hmember : s₀.members.get? (cls.name, binding, name) with
    | some found =>
      rw [member?_of_remembered hs₀ hmember] at hmissed
      cases hmissed
    | none =>
      obtain ⟨-, hsame⟩ | ⟨_, _, _, _, -, hmember', -⟩ := member?_answers hs₀ hmember
      · rw [hsame] at hs ⊢
        exact ih hs
      · rw [hmember'] at hmissed
        cases hmissed
  | other _ hsame ih =>
    obtain ⟨s₀, hs₀, -⟩ := hsame.remembers.session s hs
    exact (ih hs₀).left hs₀ hs hsame

/-! ## What a look-up answers -/

/-- A look-up in a run. Where nothing was found yet it answers what the catalog of now says. What
was found before it gives again, and that is what the catalog said when it was found first; the
catalog of now says the same if that one knew the bases of the class and the nested types of the
name. -/
theorem MemberRun.answers (h : MemberRun F w) {s : Session} (hs : w.machine.session = some s)
    (cls : Class) (binding : Binding) (name : String) :
    (F (cls.name, binding, name) = none →
      (s.catalog.lookUp? s.options.implicitStatic cls binding name = none ∧
        member? cls binding name w = (none, w)) ∨
      ∃ isStatic g found w',
        s.catalog.lookUp? s.options.implicitStatic cls binding name = some (isStatic, g) ∧
        member? cls binding name w = (some found, w') ∧ w'.Answers found isStatic g) ∧
    ∀ c cls₀, F (cls.name, binding, name) = some (c, cls₀) → ∃ found isStatic g,
      member? cls binding name w = (some found, w) ∧ w.Answers found isStatic g ∧
      cls₀.name = cls.name ∧
      c.lookUp? s.options.implicitStatic cls₀ binding name = some (isStatic, g) ∧
      (cls₀ = cls → c.Covers cls name →
        s.catalog.lookUp? s.options.implicitStatic cls binding name = some (isStatic, g)) := by
  have hrecalls := h.recalls hs
  refine ⟨fun hunnoted => ?_, fun c cls₀ hnoted => ?_⟩
  · obtain hmissed | ⟨isStatic, g, found, w', hlookUp, hmember, hanswers, -⟩ :=
      member?_answers hs (hrecalls.unnoted _ hunnoted)
    · exact .inl hmissed
    · exact .inr ⟨isStatic, g, found, w', hlookUp, hmember, hanswers⟩
  · obtain ⟨hname, hextends, found, isStatic, g, hfound, hlookUp, hanswers⟩ :=
      hrecalls.noted _ _ _ _ _ hnoted
    refine ⟨found, isStatic, g, member?_of_remembered hs hfound, hanswers, hname, hlookUp, ?_⟩
    rintro rfl hcovers
    rw [hextends.lookUp? hcovers, hlookUp]

/-! ### A nested type that comes late -/

/-- A class with a nested type, and that type. -/
def outerClass : Class := { name := "Demo.D", members := [.nested "N" "Demo.N"] }

def innerClass : Class := { name := "Demo.N" }

/-- A session that knows a class but not the type nested in it. -/
def World.unnested : World where
  machine := { (default : Machine) with
    session := some { (default : Session) with catalog := Catalog.initial.register outerClass } }

/-- The nested type is looked up, and registered afterwards. -/
def World.nested : World :=
  (modifySession (fun s => { s with catalog := s.catalog.register innerClass })
    (member? outerClass .static "N" World.unnested).2).2

theorem nested_run : ∃ s, World.unnested.machine.session = some s ∧
    MemberRun (Findings.note (fun _ => none) ("Demo.D", .static, "N") s.catalog outerClass)
      World.nested := by
  refine ⟨_, rfl, .registered (.found (.opened fun s hs => ?_) rfl outerClass .static "N" rfl)
    innerClass fun s hs => ?_⟩
  · cases hs
    rfl
  · cases hs
    decide +kernel

/-- The look-up after it still finds a nested type that is not registered, though the catalog says
now which class that is. -/
theorem nested_missed : (∃ F, MemberRun F World.nested) ∧ ∃ s,
    World.nested.machine.session = some s ∧
    (member? outerClass .static "N" World.nested).1 = some (.nested none) ∧
    s.catalog.lookUp? s.options.implicitStatic outerClass .static "N" =
      some (true, .nested (some innerClass)) := by
  obtain ⟨s, -, hrun⟩ := nested_run
  exact ⟨⟨_, hrun⟩, _, rfl, rfl, rfl⟩

/-- It is what the catalog said at the first look-up. -/
theorem answers_nested : ∃ F s c, MemberRun F World.nested ∧
    World.nested.machine.session = some s ∧
    F ("Demo.D", .static, "N") = some (c, outerClass) ∧ ∃ found isStatic g,
      member? outerClass .static "N" World.nested = (some found, World.nested) ∧
      World.nested.Answers found isStatic g ∧
      c.lookUp? s.options.implicitStatic outerClass .static "N" = some (isStatic, g) := by
  obtain ⟨s, -, hrun⟩ := nested_run
  obtain ⟨found, isStatic, g, hmember, hanswers, -, hlookUp, -⟩ :=
    (hrun.answers rfl outerClass .static "N").2 s.catalog outerClass rfl
  exact ⟨_, _, s.catalog, hrun, rfl, rfl, found, isStatic, g, hmember, hanswers, hlookUp⟩

end ScriptBridge
