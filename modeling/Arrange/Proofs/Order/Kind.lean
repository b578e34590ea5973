import Arrange.Order.Natural
import Arrange.Proofs.Order.Number
import Arrange.Proofs.Order.Preorder

/-!
# The natural order of each kind

An `OrderedKind` is one of the five kinds of values that the natural order compares by itself: the
doubles, the whole numbers of any size, the texts, the truth values and the dates. A value of a
kind is compared through its content (`OrderedKind.view?`), so that each kind is ordered because
the contents are (`isOrderOn_members`), and `compareNatural` gives that order
(`compareNatural_of_view`).
-/

set_option autoImplicit false

namespace Arrange

open Std

/-! ## The orders of contents -/

instance : TransCmp integerOrder := inferInstanceAs (TransCmp (compare : Int → Int → Ordering))

theorem boolOrder_eq : boolOrder = (compare : Bool → Bool → Ordering) := by
  funext b c
  cases b <;> cases c <;> rfl

instance : TransCmp boolOrder := by
  rw [boolOrder_eq]
  infer_instance

/-- The order of texts is the lexicographic one of the library. -/
theorem textOrder_eq : textOrder = List.compareLex (compare : UInt16 → UInt16 → Ordering) := by
  funext s t
  show Text.compare s t = _
  induction s generalizing t with
  | nil => cases t <;> rfl
  | cons u us ih =>
      cases t with
      | nil => rfl
      | cons v vs =>
          rw [List.compareLex_cons_cons]
          show (if u < v then _ else if v < u then _ else Text.compare us vs) = _
          rw [ih vs]
          by_cases huv : u < v
          · rw [if_pos huv, show compare u v = .lt from Std.compare_eq_lt.mpr huv]
            rfl
          · by_cases hvu : v < u
            · rw [if_neg huv, if_pos hvu, show compare u v = .gt from Std.compare_eq_gt.mpr hvu]
              rfl
            · have heq : u = v := UInt16.le_antisymm (UInt16.not_lt.mp hvu) (UInt16.not_lt.mp huv)
              rw [if_neg huv, if_neg hvu, heq, compare_self]
              rfl

instance : TransCmp textOrder := by
  rw [textOrder_eq]
  infer_instance

/-! ## Kinds -/

/-- The kinds of values that have a natural order without bringing one. -/
inductive OrderedKind where
  | number
  | bigint
  | text
  | bool
  | date
deriving DecidableEq

namespace OrderedKind

/-- What values of a kind are compared by. -/
def Content : OrderedKind → Type
  | number => Float
  | bigint => Int
  | text => Text
  | bool => Bool
  | date => Float

/-- The order of the contents of a kind. -/
def order : (kind : OrderedKind) → kind.Content → kind.Content → Ordering
  | number => numberOrder
  | bigint => integerOrder
  | text => textOrder
  | bool => boolOrder
  | date => dateOrder

instance (kind : OrderedKind) : TransCmp kind.order :=
  match kind with
  | number => inferInstanceAs (TransCmp numberOrder)
  | bigint => inferInstanceAs (TransCmp integerOrder)
  | text => inferInstanceAs (TransCmp textOrder)
  | bool => inferInstanceAs (TransCmp boolOrder)
  | date => inferInstanceAs (TransCmp numberOrder)

variable {ω : Type} [Objects ω]

/-- The content of a value of a kind. -/
def view? : (kind : OrderedKind) → Value ω → Option kind.Content
  | number, .number x => some x
  | bigint, .bigint n => some n
  | text, .text t => some t
  | bool, .bool b => some b
  | date, v => v.time?
  | _, _ => none

/-- The values of a kind. -/
def members (kind : OrderedKind) : Set (Value ω) := {v | (kind.view? v).isSome}

theorem mem_members_date {v : Value ω} : v ∈ date.members ↔ v.isDate = true := by
  cases v <;> rfl

/-- The order of the values of a kind. -/
def sign (kind : OrderedKind) (a b : Value ω) : Ordering :=
  match kind.view? a, kind.view? b with
  | some x, some y => kind.order x y
  | _, _ => .eq

theorem sign_of_view {kind : OrderedKind} {a b : Value ω} {x y : kind.Content}
    (ha : kind.view? a = some x) (hb : kind.view? b = some y) :
    kind.sign a b = kind.order x y := by
  rw [sign, ha, hb]

theorem isOrderOn_members (kind : OrderedKind) :
    IsOrderOn kind.sign (kind.members : Set (Value ω)) := by
  refine ⟨fun a ha => ?_, fun a ha b hb => ?_, fun a ha b hb c hc => ?_⟩
  · obtain ⟨x, hx⟩ := Option.isSome_iff_exists.mp ha
    rw [sign_of_view hx hx]
    exact ReflCmp.compare_self
  · obtain ⟨x, hx⟩ := Option.isSome_iff_exists.mp ha
    obtain ⟨y, hy⟩ := Option.isSome_iff_exists.mp hb
    rw [sign_of_view hx hy, sign_of_view hy hx]
    exact OrientedCmp.eq_swap
  · obtain ⟨x, hx⟩ := Option.isSome_iff_exists.mp ha
    obtain ⟨y, hy⟩ := Option.isSome_iff_exists.mp hb
    obtain ⟨z, hz⟩ := Option.isSome_iff_exists.mp hc
    rw [sign_of_view hx hy, sign_of_view hy hz, sign_of_view hx hz]
    exact TransCmp.isLE_trans

end OrderedKind

/-! ## Comparing values of one kind -/

variable {ω : Type}

/-- The number for an outcome has its sign. -/
theorem Value.exists_ofOrdering (o : Ordering) :
    ∃ x : Float, (Value.ofOrdering o : Value ω) = .number x ∧ Number.HasSign x o := by
  cases o with
  | lt => exact ⟨-1, rfl, by unfold Number.HasSign; decide⟩
  | eq => exact ⟨0, rfl, by unfold Number.HasSign; decide⟩
  | gt => exact ⟨1, rfl, by unfold Number.HasSign; decide⟩

variable [Objects ω]

theorem compareObjects_of_time {a b : Value ω} {s t : Float} (ha : a.time? = some s)
    (hb : b.time? = some t) : compareObjects a b = .ok (.ofOrdering (dateOrder s t)) := by
  rw [compareObjects, ha, hb]

/-- Unless both are dates, two values that bring an order compare by that of the first one. -/
theorem compareObjects_of_orders {a b : Value ω}
    {compareTo : Value ω → Except (Fault ω) (Value ω)}
    (hdates : ¬(a.isDate = true ∧ b.isDate = true)) (ha : a.ownOrder? = some compareTo)
    (hb : bringsOrder b = true) : compareObjects a b = compareTo b := by
  obtain ⟨other, hother⟩ := Option.isSome_iff_exists.mp hb
  unfold compareObjects
  split
  · next hs ht => exact absurd ⟨by simp [Value.isDate, hs], by simp [Value.isDate, ht]⟩ hdates
  · rw [ha, hother]

theorem compareNatural_of_orders {a b : Value ω}
    {compareTo : Value ω → Except (Fault ω) (Value ω)}
    (hdates : ¬(a.isDate = true ∧ b.isDate = true)) (ha : a.ownOrder? = some compareTo)
    (hb : bringsOrder b = true) : compareNatural a b = compareTo b := by
  rw [← compareObjects_of_orders hdates ha hb]
  -- only objects bring an order
  cases a with
  | object o => rfl
  | _ => cases ha

/-- Two values are refused that are neither both dates nor both bring an order. -/
theorem compareObjects_eq_error {a b : Value ω} (hdates : ¬(a.isDate = true ∧ b.isDate = true))
    (horders : ¬(bringsOrder a = true ∧ bringsOrder b = true)) :
    compareObjects a b = .error (.notComparable a b) := by
  unfold compareObjects
  split
  · next hs ht => exact absurd ⟨by simp [Value.isDate, hs], by simp [Value.isDate, ht]⟩ hdates
  · split
    · next ha hb => exact absurd ⟨by simp [bringsOrder, ha], by simp [bringsOrder, hb]⟩ horders
    · rfl

/-- Values of one kind compare by their contents. -/
theorem compareNatural_of_view {kind : OrderedKind} {a b : Value ω} {x y : kind.Content}
    (ha : kind.view? a = some x) (hb : kind.view? b = some y) :
    compareNatural a b = .ok (.ofOrdering (kind.order x y)) := by
  cases kind with
  | date =>
      -- dates are objects, and so is neither of two primitives
      cases a with
      | object o =>
          cases b with
          | object p => exact compareObjects_of_time ha hb
          | _ => cases hb
      | _ => cases ha
  | _ =>
      cases a <;> cases ha
      cases b <;> cases hb
      rfl

theorem compareNatural_of_members {kind : OrderedKind} {a b : Value ω} (ha : a ∈ kind.members)
    (hb : b ∈ kind.members) : compareNatural a b = .ok (.ofOrdering (kind.sign a b)) := by
  obtain ⟨x, hx⟩ := Option.isSome_iff_exists.mp ha
  obtain ⟨y, hy⟩ := Option.isSome_iff_exists.mp hb
  rw [OrderedKind.sign_of_view hx hy, compareNatural_of_view hx hy]

end Arrange
