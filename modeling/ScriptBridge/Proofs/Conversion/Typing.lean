import ScriptBridge.Proofs.Memory.Ownership

/-!
# Conversions give values of their type

A conversion chosen for a type reads only values that conform to it, whenever it is run. An object
a converted value needs is exposed, or it is new and made by the conversion; the items of a new
array conform to its element type.
-/

namespace ScriptBridge

/-! ## The catalog in use -/

/-- The catalog of the running session. -/
def World.catalog (w : World) : Catalog := (readSession w).1.catalog

theorem World.catalog_of_some {w : World} {s : Session} (h : w.machine.session = some s) :
    w.catalog = s.catalog := by
  show (w.machine.session.getD default).catalog = s.catalog
  rw [h]
  rfl

theorem World.catalog_of_none {w : World} (h : w.machine.session = none) :
    w.catalog = .initial := by
  show (w.machine.session.getD default).catalog = .initial
  rw [h]
  rfl

theorem World.Sound.catalog_keyed {w : World} (hw : w.Sound) : w.catalog.IsKeyed := by
  cases hs : w.machine.session with
  | none =>
    rw [catalog_of_none hs]
    exact Catalog.isKeyed_initial
  | some s =>
    rw [catalog_of_some hs]
    exact hw.keyed s hs

theorem World.catalog_grows {w w' : World} (h : w.machine.SessionLater w'.machine) :
    w.catalog.Grows w'.catalog := by
  cases hs : w.machine.session with
  | some s =>
    obtain ⟨s', hs', hl⟩ := h.of_some hs
    rw [catalog_of_some hs, catalog_of_some hs']
    exact hl.catalog
  | none =>
    cases hs' : w'.machine.session with
    | none =>
      rw [catalog_of_none hs, catalog_of_none hs']
      exact .refl _
    | some s' =>
      obtain ⟨s, hs'', -⟩ := h.to_some hs'
      rw [hs] at hs''
      cases hs''

/-! ## Conforming values -/

/-- A host value conforms to a type. Scalars are of exactly their variant; null is a value of
`any`, of handles, classes, arrays and nullable types. An array is an exposed one of the class of
the array type, or a new one whose items conform to the element type. -/
def World.Conforms (w : World) (isNew : ObjectRef → Prop) : HostType → HostValue → Prop
  | .any, _ => True
  | .bool, v => ∃ b, v = .bool b
  | .int k, v => ∃ n, v = .int k n ∧ k.contains n = true
  | .f32, v => ∃ n, v = .f32 n
  | .f64, v => ∃ n, v = .f64 n
  | .char, v => ∃ c, v = .char c
  | .text, v => ∃ s, v = .text s
  | .nullable t, v => v = .null ∨ Conforms w isNew t v
  | .array e, v => v = .null ∨ ∃ o cell, v = .object o ∧ w.objects.get? o.index = some cell ∧
      cell.cls.name = (HostType.array e).name ∧
      (w.Exposes o ∨ isNew o ∧ ∃ items, cell.data = .array e items ∧
        ∀ x ∈ items.toList, Conforms w isNew e x)
  | .named n, v => v = .null ∨ ∃ o cell, v = .object o ∧ w.objects.get? o.index = some cell ∧
      w.catalog.isAssignable n cell.cls = true ∧ (w.Exposes o ∨ isNew o)
  | .handle k, v => v = .null ∨ ∃ h, v = .handle k h
  | .void, _ => False

namespace World

variable {w w' : World} {isNew isNew' : ObjectRef → Prop}

/-- Values conform as long as exposed and new objects stay and classes stay assignable. -/
theorem Conforms.later (hsession : w.machine.SessionLater w'.machine)
    (hobjects : ∀ o, w.Exposes o ∨ isNew o → w'.objects.get? o.index = w.objects.get? o.index)
    (hnew : ∀ o, isNew o → isNew' o) {t : HostType} {v : HostValue} (h : w.Conforms isNew t v) :
    w'.Conforms isNew' t v := by
  induction t generalizing v with
  | nullable t ih => exact h.imp_right ih
  | array e ih =>
    refine h.imp_right ?_
    rintro ⟨o, cell, rfl, hcell, hname, hfrom⟩
    refine ⟨o, cell, rfl, ?_, hname, ?_⟩
    · rw [hobjects o (hfrom.imp_right (·.1)), hcell]
    · refine hfrom.imp (exposes_iff hsession o).mpr ?_
      rintro ⟨ho, items, hdata, hitems⟩
      exact ⟨hnew o ho, items, hdata, fun x hx => ih (hitems x hx)⟩
  | named n =>
    refine h.imp_right ?_
    rintro ⟨o, cell, rfl, hcell, hfits, hfrom⟩
    refine ⟨o, cell, rfl, ?_, ?_, ?_⟩
    · rw [hobjects o hfrom, hcell]
    · rw [Catalog.isAssignable_grows (catalog_grows hsession), hfits]
    · exact hfrom.imp (exposes_iff hsession o).mpr (hnew o)
  | _ => exact h

/-- What conforms to a type without its nullable layer conforms to the type. -/
theorem Conforms.of_unwrap {t : HostType} {v : HostValue}
    (h : w.Conforms isNew t.unwrapNullable v) : w.Conforms isNew t v := by
  cases t with
  | nullable t => exact .inr h
  | _ => exact h

theorem conforms_null_of_unwrap {t : HostType} (h : (t.unwrapNullable != t) = true) :
    w.Conforms isNew t .null := by
  cases t with
  | nullable t => exact .inl rfl
  | _ => simp [HostType.unwrapNullable] at h

end World

/-! ## Which conversions read a type -/

/-- A type whose values are scalars, or a nullable layer below another one. -/
def HostType.isPlain : HostType → Bool
  | .any | .handle _ | .named _ | .array _ => false
  | _ => true

/-- The conversion reads values of the type. -/
inductive Conversion.Reads : Conversion → HostType → Prop where
  | scalar {t : HostType} (h : t.unwrapNullable.isPlain = true) : Reads (.scalar t) t
  | any {t : HostType} (h : t.unwrapNullable = .any) : Reads .any t
  | handle {t : HostType} {k : HandleKind} (h : t.unwrapNullable = .handle k) :
      Reads (.handle k) t
  | class {t : HostType} {n : String} (h : t.unwrapNullable = .named n) :
      Reads (.object (.named n)) t
  | array {t e : HostType} (h : t.unwrapNullable = .array e) : Reads (.object (.array e)) t
  | arrayTable {t e : HostType} (h : t.unwrapNullable = .array e) : Reads (.arrayTable e) t
  | delegate {t : HostType} {cls : Class} (h : t.unwrapNullable = .named cls.name) :
      Reads (.delegate cls) t
  | interface {t : HostType} {cls : Class} (h : t.unwrapNullable = .named cls.name) :
      Reads (.interface cls) t

theorem HostType.conversion_reads (t : HostType) : t.conversion.Reads t := by
  unfold conversion
  cases h : t.unwrapNullable with
  | any => exact .any h
  | handle k => exact .handle h
  | named n => exact .class h
  | array e => exact .array h
  | _ => exact .scalar (by rw [h]; rfl)

end ScriptBridge
