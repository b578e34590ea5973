import Arrange.Proofs.Order.Common
import Arrange.Proofs.Order.Comparability
import Arrange.Proofs.Value.Description

/-!
# What two values are compared by

Any two values stand on one `Ground`: they are of one kind and compare by content, they compare by
the order that the first one brings, or there is nothing to compare them by (`exists_ground`,
`Ground.Holds.unique`). The ground says what `compareNatural` does (`Ground.Holds.compareNatural`),
a refusal included, and a refusal can be reported for all values. Main statement:
`compareNatural_stands_on_one_ground`.
-/

set_option autoImplicit false

namespace Arrange

variable {ω : Type} [Objects ω]

/-! ## The kind of a value -/

namespace OrderedKind

/-- The kind of a value, if it is of one. -/
def of? (v : Value ω) : Option OrderedKind := if v.isDate then some .date else primitiveKind? v

theorem mem_members_iff {kind : OrderedKind} {v : Value ω} :
    v ∈ kind.members ↔ of? v = some kind := by
  cases v with
  | object o =>
      unfold of?
      cases kind with
      | date =>
          rw [mem_members_date]
          cases (Value.object o).isDate <;> simp [primitiveKind?]
      | _ =>
          apply iff_of_false Bool.false_ne_true
          cases (Value.object o).isDate <;> simp [primitiveKind?]
  | _ =>
      cases kind <;> first
        | exact iff_of_true rfl rfl
        | exact iff_of_false (fun h => by cases h) (fun h => by cases h)

/-- Of the values of a kind only dates may bring an order. -/
theorem isDate_of_mem {kind : OrderedKind} {v : Value ω} (hmem : v ∈ kind.members)
    (hbrings : bringsOrder v = true) : v.isDate = true := by
  cases v with
  | object o =>
      cases kind with
      | date => exact mem_members_date.mp hmem
      | _ => cases hmem
  | _ => cases hbrings

end OrderedKind

/-- A date has no primitive kind. -/
theorem primitiveKind?_of_isDate {v : Value ω} (h : v.isDate = true) : primitiveKind? v = none := by
  cases v with
  | object o => rfl
  | _ => cases h

/-- Values are comparable when they are of one kind or when both bring an order. -/
theorem areComparable_iff {a b : Value ω} : AreComparable a b ↔
    (∃ kind : OrderedKind, a ∈ kind.members ∧ b ∈ kind.members) ∨
      (bringsOrder a = true ∧ bringsOrder b = true) := by
  simp only [OrderedKind.mem_members_iff]
  unfold AreComparable
  rw [sameOrderedKind_iff, ← or_assoc]
  apply or_congr_left
  unfold OrderedKind.of?
  cases ha : a.isDate <;> cases hb : b.isDate
  · simp
  · simp [primitiveKind?_of_isDate hb, primitiveKind?_ne_date]
  · simp [primitiveKind?_of_isDate ha, primitiveKind?_ne_date]
  · simp [primitiveKind?_of_isDate ha]

/-! ## Grounds -/

/-- What two values are compared by, if there is anything. -/
inductive Ground (ω : Type) where
  /-- Their contents, of one kind. -/
  | content (kind : OrderedKind)
  /-- The order that the first value brings. -/
  | order (compareTo : Value ω → Except (Fault ω) (Value ω))
  | nothing

namespace Ground

/-- Whether two values stand on a ground. -/
def Holds (a b : Value ω) : Ground ω → Prop
  | content kind => a ∈ kind.members ∧ b ∈ kind.members
  | order compareTo => a.ownOrder? = some compareTo ∧ bringsOrder b = true ∧
      ¬(a.isDate = true ∧ b.isDate = true)
  | nothing => ¬AreComparable a b

/-- What comparing two values on a ground gives. -/
def outcome (a b : Value ω) : Ground ω → Except (Fault ω) (Value ω)
  | content kind => .ok (.ofOrdering (kind.sign a b))
  | order compareTo => compareTo b
  | nothing => .error (.notComparable a b)

variable {a b : Value ω} {g g' : Ground ω}

theorem Holds.compareNatural (h : g.Holds a b) : compareNatural a b = g.outcome a b := by
  cases g with
  | content kind => exact compareNatural_of_members h.1 h.2
  | order compareTo => exact compareNatural_of_orders h.2.2 h.1 h.2.1
  | nothing => exact compareNatural_eq_error h

theorem Holds.areComparable (h : g.Holds a b) (hsome : g ≠ nothing) : AreComparable a b := by
  rw [areComparable_iff]
  cases g with
  | content kind => exact .inl ⟨kind, h⟩
  | order compareTo => exact .inr ⟨Option.isSome_of_eq_some h.1, h.2.1⟩
  | nothing => exact absurd rfl hsome

/-- Of two values of one kind that bring orders both are dates. -/
theorem not_order_of_content {kind : OrderedKind}
    {compareTo : Value ω → Except (Fault ω) (Value ω)} (h : (content kind).Holds a b) :
    ¬(order compareTo).Holds a b := by
  rintro ⟨ha, hb, hdates⟩
  exact hdates ⟨OrderedKind.isDate_of_mem h.1 (Option.isSome_of_eq_some ha),
    OrderedKind.isDate_of_mem h.2 hb⟩

/-- Two values do not stand on two grounds. -/
theorem Holds.unique (h : g.Holds a b) (h' : g'.Holds a b) : g = g' := by
  cases g with
  | content kind =>
      cases g' with
      | content kind' =>
          have hkind := OrderedKind.mem_members_iff.mp h.1
          rw [OrderedKind.mem_members_iff.mp h'.1] at hkind
          rw [Option.some.inj hkind]
      | order compareTo => exact absurd h' (not_order_of_content h)
      | nothing => exact absurd (h.areComparable nofun) h'
  | order compareTo =>
      cases g' with
      | content kind => exact absurd h (not_order_of_content h')
      | order compareTo' =>
          have horder := h.1
          rw [h'.1] at horder
          rw [Option.some.inj horder]
      | nothing => exact absurd (h.areComparable nofun) h'
  | nothing =>
      cases g' with
      | nothing => rfl
      | _ => exact absurd (h'.areComparable nofun) h

end Ground

theorem exists_ground (a b : Value ω) : ∃ g : Ground ω, g.Holds a b := by
  by_cases hcomparable : AreComparable a b
  · by_cases hkind : ∃ kind : OrderedKind, a ∈ kind.members ∧ b ∈ kind.members
    · obtain ⟨kind, hmembers⟩ := hkind
      exact ⟨.content kind, hmembers⟩
    · obtain ⟨ha, hb⟩ := (areComparable_iff.mp hcomparable).resolve_left hkind
      obtain ⟨compareTo, hcompare⟩ := Option.isSome_iff_exists.mp ha
      refine ⟨.order compareTo, hcompare, hb, fun hdates => hkind ⟨.date, ?_⟩⟩
      exact ⟨OrderedKind.mem_members_date.mpr hdates.1, OrderedKind.mem_members_date.mpr hdates.2⟩
  · exact ⟨.nothing, hcomparable⟩

/-! ## Reported kinds -/

/-- If objects have types with names, every value has a kind to be reported. -/
theorem Value.isAbsent_reportedKind (h : ∀ o : ω, (Objects.typeName o).isAbsent = false)
    (v : Value ω) : v.reportedKind.isAbsent = false := by
  cases v with
  | object o =>
      simp only [reportedKind]
      cases Objects.form o with
      | plain => exact h o
      | _ => rfl
  | _ => rfl

namespace Catalog

/-- The name of a type is something, whatever stands for the constructor of an object. -/
theorem isAbsent_typeName (c : Catalog) (e : Entry) : (c.typeName e).isAbsent = false := by
  unfold typeName
  cases e.ownField? "constructor" with
  | some constructor =>
      simp only [constructorName]
      cases c.shownName constructor <;> rfl
  | none => cases e.nature <;> rfl

theorem isAbsent_typeName_objectsTo (c : Catalog) (depth : Nat) (o : Item) :
    ((c.objectsTo depth).typeName o).isAbsent = false := by
  cases depth with
  | zero => rfl
  | succ depth => exact c.isAbsent_typeName (c.entry o)

end Catalog

/-! ## Comparison and refusal -/

/-- Any two values stand on exactly one ground, and this says what comparing them does. A refusal
can be reported whatever the values are: each of them stands as a text in the message, and the kind
that is told of it is never absent, whatever the constructor of an object is. -/
theorem compareNatural_stands_on_one_ground (a b : Value ω) :
    (∃ ground : Ground ω, (∀ g : Ground ω, g.Holds a b ↔ g = ground) ∧
      compareNatural a b = ground.outcome a b) ∧
    (∃ left right : Text, (∀ t, a.StandsAs t ↔ t = left) ∧ (∀ t, b.StandsAs t ↔ t = right) ∧
      (Fault.notComparable a b).report? = some ⟨.ofComparisons, .notComparable,
        Text.ofString "Cannot compare " ++ left ++ Text.ofString " with " ++ right ++
          Text.ofString ": no shared natural order",
        [("left", a.reportedKind), ("right", b.reportedKind)]⟩) ∧
    ∀ (c : Catalog) (v : Value Item), (@Value.reportedKind Item c.objects v).isAbsent = false := by
  refine ⟨?_, ?_, ?_⟩
  · obtain ⟨ground, hground⟩ := exists_ground a b
    refine ⟨ground, fun g => ⟨fun h => h.unique hground, ?_⟩, hground.compareNatural⟩
    rintro rfl
    exact hground
  · exact ⟨a.described, b.described, a.standsAs_iff, b.standsAs_iff, rfl⟩
  · intro c v
    exact @Value.isAbsent_reportedKind Item c.objects (c.isAbsent_typeName_objectsTo c.size) v

/-- A symbol in an array in an array, beside an object without any conversion. -/
example :
    let catalog : Catalog := #[.ofNature none .bare]
    let _ : Objects Item := catalog.objects
    let nested : Value Item := .array 1 [.array 0 [.symbol 0 "s"]]
    Fault.notComparableMessage nested (.object ⟨0⟩) =
      "Cannot compare [object Array] with [object Object]: no shared natural order" := by
  decide +kernel

end Arrange
