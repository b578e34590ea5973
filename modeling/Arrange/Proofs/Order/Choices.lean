import Arrange.Catalog
import Arrange.Proofs.Comparator.Extremum

/-!
# Choosing one of two values

The smaller and the larger of two values are picked by an order, and of two values that tie the
first one is picked. So however picks are nested, the first of the best values comes out
(`pick_assoc`), and picking by an order and by the same order turned round absorb each other
(`pick_pick_reverse`). These are laws of the very values that come out, not only up to ties
(`ChoiceLaws`). Main statement: `smaller_and_larger_associate_and_absorb`.
-/

set_option autoImplicit false

namespace Arrange

open Std

/-! ## Picking by an order -/

section Pick

variable {α : Type} {sign : α → α → Ordering} {D : Set α} {a b c : α}

theorem pick_of_gt (h : sign b a = .gt) : pick sign a b = b := by
  rw [pick, h]
  rfl

theorem pick_of_isLE (h : (sign b a).isLE) : pick sign a b = a := by
  rw [pick, if_neg]
  rw [beq_iff_eq]
  exact Ordering.isLE_iff_ne_gt.mp h

/-- The first value is picked, or the second one for being above it. -/
theorem pick_cases (sign : α → α → Ordering) (a b : α) :
    ((sign b a).isLE ∧ pick sign a b = a) ∨ (sign b a = .gt ∧ pick sign a b = b) := by
  by_cases hba : sign b a = .gt
  · exact .inr ⟨hba, pick_of_gt hba⟩
  · have hle : (sign b a).isLE := Ordering.isLE_iff_ne_gt.mpr hba
    exact .inl ⟨hle, pick_of_isLE hle⟩

theorem pick_mem (ha : a ∈ D) (hb : b ∈ D) : pick sign a b ∈ D := by
  rcases pick_cases sign a b with ⟨-, hpick⟩ | ⟨-, hpick⟩ <;> rwa [hpick]

variable (h : IsOrderOn sign D) (ha : a ∈ D) (hb : b ∈ D)

include h ha hb

theorem isLE_of_gt (hba : sign b a = .gt) : (sign a b).isLE := by
  rw [h.swap b hb a ha, hba]
  rfl

/-- Both values are at most the one that is picked. -/
theorem isLE_pick : (sign a (pick sign a b)).isLE ∧ (sign b (pick sign a b)).isLE := by
  rcases pick_cases sign a b with ⟨hle, hpick⟩ | ⟨hgt, hpick⟩
  · rw [hpick, h.self a ha]
    exact ⟨rfl, hle⟩
  · rw [hpick, h.self b hb]
    exact ⟨isLE_of_gt h ha hb hgt, rfl⟩

/-- The picks from two values in either order tie. -/
theorem sign_pick_comm : sign (pick sign a b) (pick sign b a) = .eq := by
  have hab := h.swap b hb a ha
  cases hba : sign b a <;> rw [hba] at hab
  case lt => rw [pick_of_isLE (by rw [hba]; rfl), pick_of_gt hab, h.self a ha]
  case eq => rw [pick_of_isLE (by rw [hba]; rfl), pick_of_isLE (by rw [hab]; rfl), hab]; rfl
  case gt => rw [pick_of_gt hba, pick_of_isLE (by rw [hab]; rfl), h.self b hb]

/-- Of a value and the worse one of it and another, the value is picked. -/
theorem pick_pick_reverse : pick sign a (pick (fun x y => sign y x) a b) = a := by
  apply pick_of_isLE
  exact (isLE_pick h.reverse ha hb).1

/-- Of three values the same one is picked whichever two are looked at first. -/
theorem pick_assoc (hc : c ∈ D) : pick sign (pick sign a b) c = pick sign a (pick sign b c) := by
  rcases pick_cases sign a b with ⟨hba, hab⟩ | ⟨hba, hab⟩ <;>
    rcases pick_cases sign b c with ⟨hcb, hbc⟩ | ⟨hcb, hbc⟩
  · rw [hab, hbc, hab]
    exact pick_of_isLE (h.trans c hc b hb a ha hcb hba)
  · rw [hab, hbc]
  · rw [hab, hbc, hab]
  · -- the third value is above the second, and that one above the first
    have hca : sign c a = .gt := by
      by_contra hnot
      have hle : (sign c a).isLE := Ordering.isLE_iff_ne_gt.mpr hnot
      have hcb' : (sign c b).isLE := h.trans c hc a ha b hb hle (isLE_of_gt h ha hb hba)
      exact Ordering.isLE_iff_ne_gt.mp hcb' hcb
    rw [hab, hbc, pick_of_gt hca]

end Pick

/-! ## The laws of a choice -/

section Choice

variable {ω : Type} [DecidableEq ω] [Objects ω]

/-- How a choice between three values fits together with itself, with the opposite choice and with
the test that it is made by. What comes out is one and the same value, not only one that ties. -/
structure ChoiceLaws (choose opposite : Value ω → Value ω → Except (Fault ω) (Value ω))
    (test : Value ω → Value ω → Except (Fault ω) Bool) (a b c : Value ω) : Prop where
  assoc : ∃ r, (do choose (← choose a b) c) = .ok r ∧ (do choose a (← choose b c)) = .ok r
  absorbs : (do choose a (← opposite a b)) = .ok a
  /-- The choices from two values in either order tie. -/
  exchange : (do ties (← choose a b) (← choose b a)) = .ok true
  /-- What is chosen passes the test with each of the values. -/
  passes : (do test (← choose a b) a) = .ok true ∧ (do test (← choose a b) b) = .ok true

/-- A choice picks by an order. -/
def PicksBy (choose : Value ω → Value ω → Except (Fault ω) (Value ω))
    (sign : Value ω → Value ω → Ordering) (D : Set (Value ω)) : Prop :=
  ∀ a ∈ D, ∀ b ∈ D, choose a b = .ok (pick sign a b)

variable {choose opposite : Value ω → Value ω → Except (Fault ω) (Value ω)}
  {test : Value ω → Value ω → Except (Fault ω) Bool} {sign : Value ω → Value ω → Ordering}
  {D : Set (Value ω)} {a b c : Value ω}

theorem PicksBy.choiceLaws (horder : IsOrderOn sign D) (hchoose : PicksBy choose sign D)
    (hopposite : PicksBy opposite (fun x y => sign y x) D)
    (htest : ∀ a ∈ D, ∀ b ∈ D, test a b = .ok (sign b a).isLE)
    (hties : ∀ a ∈ D, ∀ b ∈ D, ties a b = .ok (sign a b == .eq))
    (ha : a ∈ D) (hb : b ∈ D) (hc : c ∈ D) : ChoiceLaws choose opposite test a b c := by
  have hab : pick sign a b ∈ D := pick_mem ha hb
  have hba : pick sign b a ∈ D := pick_mem hb ha
  have hbc : pick sign b c ∈ D := pick_mem hb hc
  have hworse : pick (fun x y => sign y x) a b ∈ D := pick_mem ha hb
  constructor
  case assoc =>
    refine ⟨pick sign (pick sign a b) c, ?_, ?_⟩
    · rw [hchoose a ha b hb]
      exact hchoose _ hab c hc
    · rw [hchoose b hb c hc, pick_assoc horder ha hb hc]
      exact hchoose a ha _ hbc
  case absorbs =>
    rw [hopposite a ha b hb]
    show choose a _ = _
    rw [hchoose a ha _ hworse, pick_pick_reverse horder ha hb]
  case exchange =>
    rw [hchoose a ha b hb, hchoose b hb a ha]
    show ties _ _ = _
    rw [hties _ hab _ hba, sign_pick_comm horder ha hb]
    rfl
  case passes =>
    obtain ⟨hfirst, hsecond⟩ := isLE_pick horder ha hb
    rw [hchoose a ha b hb]
    show test _ a = _ ∧ test _ b = _
    rw [htest _ hab a ha, htest _ hab b hb, hfirst, hsecond]
    exact ⟨rfl, rfl⟩

/-- Where all values are ranked by an order the laws hold for both choices. -/
theorem choiceLaws_of_ranked (horder : IsOrderOn sign D)
    (hranked : ∀ a ∈ D, ∀ b ∈ D, Ranked a b (sign a b)) (ha : a ∈ D) (hb : b ∈ D) (hc : c ∈ D) :
    ChoiceLaws smaller larger le a b c ∧ ChoiceLaws larger smaller ge a b c := by
  have hsmaller : PicksBy smaller (fun x y => sign y x) D :=
    fun _ hx _ hy => smaller_eq_pick hranked hx hy
  have hlarger : PicksBy larger sign D := fun _ hx _ hy => larger_eq_pick horder hranked hx hy
  have hle : ∀ x ∈ D, ∀ y ∈ D, le x y = .ok (sign x y).isLE :=
    fun x hx y hy => le_readsOff.ranked (hranked x hx y hy)
  have hge : ∀ x ∈ D, ∀ y ∈ D, ge x y = .ok (sign y x).isLE := by
    intro x hx y hy
    rw [ge_readsOff.ranked (hranked x hx y hy), horder.swap x hx y hy, Ordering.isLE_swap]
  have hties : ∀ x ∈ D, ∀ y ∈ D, ties x y = .ok (sign x y == .eq) :=
    fun x hx y hy => ties_readsOff.ranked (hranked x hx y hy)
  have hties' : ∀ x ∈ D, ∀ y ∈ D, ties x y = .ok (sign y x == .eq) := by
    intro x hx y hy
    rw [hties x hx y hy, horder.swap x hx y hy]
    cases sign x y <;> rfl
  exact ⟨hsmaller.choiceLaws horder.reverse hlarger hle hties' ha hb hc,
    hlarger.choiceLaws horder hsmaller hge hties ha hb hc⟩

/-! ## Domains -/

/-- The values of a set and the absent values. -/
def optional (S : Set (Value ω)) : Set (Value ω) := {v | v.isAbsent = true ∨ v ∈ S}

/-- Where comparing the values of a set gives numbers with the signs of an order, the laws hold for
them and the absent values. -/
theorem choiceLaws_of_optional {S : Set (Value ω)} (horder : IsOrderOn sign S)
    (hcompare : ∀ a ∈ S, ∀ b ∈ S,
      ∃ x, compareNatural a b = .ok (.number x) ∧ Number.HasSign x (sign a b))
    (ha : a ∈ optional S) (hb : b ∈ optional S) (hc : c ∈ optional S) :
    ChoiceLaws smaller larger le a b c ∧ ChoiceLaws larger smaller ge a b c := by
  have hpresent : ∀ v ∈ optional S, v.isAbsent = false → v ∈ S := by
    rintro v (habsent | hv) hpresent
    · exact absurd (hpresent.symm.trans habsent) Bool.false_ne_true
    · exact hv
  have horder' : IsOrderOn sign {v ∈ optional S | v.isAbsent = false} :=
    horder.mono fun v hv => hpresent v hv.1 hv.2
  refine choiceLaws_of_ranked (horder'.withAbsent false) (fun v hv w hw => ?_) ha hb hc
  cases habsent : absentOrder? v w false with
  | some o => exact ranked_of_absent habsent
  | none =>
      obtain ⟨hpv, hpw⟩ := absentOrder?_eq_none_iff.mp habsent
      by_cases hvw : v = w
      · subst hvw
        rw [Option.getD_none, horder.self v (hpresent v hv hpv)]
        exact ranked_self v
      · obtain ⟨x, hx, hsign⟩ := hcompare v (hpresent v hv hpv) w (hpresent w hw hpw)
        exact ⟨x, by rw [compareOptional_of_present hvw hpv hpw, hx], hsign⟩

/-- Objects of which each brings an order, and these orders together are lawful: they give numbers,
whose signs are `own` and order the objects. -/
structure OrderedObjects (own : Value ω → Value ω → Ordering) (S : Set (Value ω)) : Prop where
  brings : ∀ v ∈ S, bringsOrder v = true
  answers : ∀ a ∈ S, ∀ b ∈ S, ∀ compareTo, a.ownOrder? = some compareTo →
    ∃ x, compareTo b = .ok (.number x) ∧ Number.HasSign x (own a b)
  isOrderOn : IsOrderOn own S
  /-- Between two dates their times decide, whatever orders they bring. -/
  dates : ∀ a ∈ S, ∀ b ∈ S, a.isDate = true → b.isDate = true →
    own a b = OrderedKind.date.sign a b

omit [DecidableEq ω] in
theorem OrderedObjects.compareNatural {own : Value ω → Value ω → Ordering} {S : Set (Value ω)}
    (h : OrderedObjects own S) (ha : a ∈ S) (hb : b ∈ S) :
    ∃ x, compareNatural a b = .ok (.number x) ∧ Number.HasSign x (own a b) := by
  by_cases hdates : a.isDate = true ∧ b.isDate = true
  · obtain ⟨hda, hdb⟩ := hdates
    obtain ⟨x, hx, hsign⟩ := Value.exists_ofOrdering (ω := ω) (own a b)
    refine ⟨x, ?_, hsign⟩
    rw [compareNatural_of_members (OrderedKind.mem_members_date.mpr hda)
      (OrderedKind.mem_members_date.mpr hdb), ← h.dates a ha b hb hda hdb, hx]
  · obtain ⟨compareTo, hcompareTo⟩ := Option.isSome_iff_exists.mp (h.brings a ha)
    obtain ⟨x, hx, hsign⟩ := h.answers a ha b hb compareTo hcompareTo
    exact ⟨x, by rw [compareNatural_of_orders hdates hcompareTo (h.brings b hb), hx], hsign⟩

/-! ## Main statement -/

/-- **The smaller and the larger of two values associate and absorb each other**, as the very values
that come out: on the values of each kind, and on objects whose orders are lawful, in both cases
with absent values. What is chosen from two values ties with what is chosen from them in the other
order, and is at most both of them, or at least both. -/
theorem smaller_and_larger_associate_and_absorb :
    (∀ kind : OrderedKind, ∀ a ∈ optional (kind.members : Set (Value ω)),
      ∀ b ∈ optional kind.members, ∀ c ∈ optional kind.members,
        ChoiceLaws smaller larger le a b c ∧ ChoiceLaws larger smaller ge a b c) ∧
    ∀ (own : Value ω → Value ω → Ordering) (S : Set (Value ω)), OrderedObjects own S →
      ∀ a ∈ optional S, ∀ b ∈ optional S, ∀ c ∈ optional S,
        ChoiceLaws smaller larger le a b c ∧ ChoiceLaws larger smaller ge a b c := by
  constructor
  · intro kind a ha b hb c hc
    refine choiceLaws_of_optional kind.isOrderOn_members (fun v hv w hw => ?_) ha hb hc
    obtain ⟨x, hx, hsign⟩ := Value.exists_ofOrdering (ω := ω) (kind.sign v w)
    exact ⟨x, by rw [compareNatural_of_members hv hw, hx], hsign⟩
  · intro own S h a ha b hb c hc
    exact choiceLaws_of_optional h.isOrderOn (fun v hv w hw => h.compareNatural hv hw) ha hb hc

/-- Two versions that tie, a date that is ordered among them, and an absent value. -/
theorem smaller_and_larger_associate_and_absorb_for_versions_and_date :
    let catalog : Catalog := #[.ofNature none (.version (.number 1) (.number 0)),
      .ofNature none (.version (.number 1) (.number 0)),
      ⟨none, .date 5, [("major", .number 2), ("minor", .number 0)], none,
        some (.difference "major"), none, none, none⟩]
    let _ : Objects Item := catalog.objects
    let rank : Value Item → Nat := fun v => if v = .object ⟨2⟩ then 1 else 0
    let own : Value Item → Value Item → Ordering := fun a b => compare (rank a) (rank b)
    let first : Value Item := .object ⟨0⟩
    let second : Value Item := .object ⟨1⟩
    let date : Value Item := .object ⟨2⟩
    let S : Set (Value Item) := {first, second, date}
    (OrderedObjects own S ∧ first ∈ optional S ∧ second ∈ optional S ∧ date ∈ optional S ∧
      .undefined ∈ optional S) ∧
      (smaller first second = .ok first ∧ smaller second first = .ok second) ∧
      ChoiceLaws smaller larger le second first date ∧
      ChoiceLaws larger smaller ge date .undefined second := by
  intro catalog _ rank own first second date S
  have hcompare : TransCmp (compare : Nat → Nat → Ordering) := inferInstance
  have honly : ∀ v ∈ S, v.isDate = true → v = date := by
    rintro v (rfl | rfl | rfl) hv
    · cases hv
    · cases hv
    · rfl
  have hobjects : OrderedObjects own S := by
    refine ⟨?_, ?_, (IsOrderOn.of_transCmp hcompare Set.univ).comap rank fun _ _ => trivial, ?_⟩
    · rintro v (rfl | rfl | rfl) <;> rfl
    · rintro v (rfl | rfl | rfl) w (rfl | rfl | rfl) compareTo hown <;> cases hown <;>
        exact ⟨_, rfl, by unfold Number.HasSign; decide⟩
    · intro v hv w hw hdv hdw
      rw [honly v hv hdv, honly w hw hdw]
      rfl
  have hfirst : first ∈ optional S := .inr (.inl rfl)
  have hsecond : second ∈ optional S := .inr (.inr (.inl rfl))
  have hdate : date ∈ optional S := .inr (.inr (.inr rfl))
  have habsent : .undefined ∈ optional S := .inl rfl
  obtain ⟨-, hlaws⟩ := smaller_and_larger_associate_and_absorb (ω := Item)
  refine ⟨⟨hobjects, hfirst, hsecond, hdate, habsent⟩, ⟨rfl, rfl⟩, ?_, ?_⟩
  · exact (hlaws own S hobjects _ hsecond _ hfirst _ hdate).1
  · exact (hlaws own S hobjects _ hdate _ habsent _ hsecond).2

end Choice

end Arrange
