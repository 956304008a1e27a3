import Calculator.Number
import Mathlib

/-!
# Comparing numbers

Numbers that compare as equal are the same number, but for the two zeros; the number that is none
is equal to nothing. Results of arithmetic may come out as none, so they are compared up to this
number as well (`Number.Equal`). Arithmetic keeps numbers equal: the sign of a zero operand can only
decide the sign of a zero result, where no zero is divided by.
-/

namespace Calculator

open Float.Model Float.Model.UnpackedFloat

variable {x x' y y' : Number} {u u' v v' w : UnpackedFloat}

namespace Number

/-- The same number, or no number twice. -/
def Same (x y : Number) : Prop :=
  x = y ∨ x.isNaN = true ∧ y.isNaN = true

/-- There is one number only that is none. -/
lemma Same.eq (h : x.Same y) : x = y := by
  rcases h with rfl | ⟨hx, hy⟩
  · rfl
  · rw [Float.isNaN_eq_decide_eq_nan, decide_eq_true_eq] at hx hy
    rw [hx, hy]

/-- The numbers are equal, or neither of them is one. -/
def Equal (x y : Number) : Prop :=
  (x == y) = true ∨ x.isNaN = true ∧ y.isNaN = true

lemma zero_ne_nan : (0 : Number) ≠ Float.nan ∧ (-0 : Number) ≠ Float.nan := by
  decide +kernel

lemma equal_iff : x.Equal y ↔ x = y ∨ x = 0 ∧ y = -0 ∨ x = -0 ∧ y = 0 := by
  have hne := zero_ne_nan
  rw [Equal, Float.beq_iff_ne_nan_and_eq, Float.isNaN_eq_decide_eq_nan,
    Float.isNaN_eq_decide_eq_nan]
  grind

/-- A number equals zero if it is zero, of either sign. -/
lemma beq_zero_iff : (x == 0) = true ↔ x = 0 ∨ x = -0 := by
  have hne := zero_ne_nan
  rw [Float.beq_iff_ne_nan_and_eq]
  grind

end Number

/-! ### The signs of zeros -/

/-- Unpacked numbers that are the same up to the sign of a zero. -/
inductive UpToZero : UnpackedFloat → UnpackedFloat → Prop where
  | refl (u : UnpackedFloat) : UpToZero u u
  | zero (s s' : Sign) : UpToZero (.zero s) (.zero s')

lemma UpToZero.trans (h : UpToZero u v) (h' : UpToZero v w) : UpToZero u w := by
  cases h with
  | refl => exact h'
  | zero s s' =>
    cases h' with
    | refl => exact .zero s s'
    | zero _ s'' => exact .zero s s''

/-- Unpacked results stay the same up to the sign of a zero if the operands do. -/
def KeepsUpToZero (f : UnpackedFloat → UnpackedFloat → UnpackedFloat) : Prop :=
  ∀ u u' v v', UpToZero u u' → UpToZero v v' → UpToZero (f u v) (f u' v')

/-- The operands can be looked at one after the other. -/
lemma keepsUpToZero_of_zero {f : UnpackedFloat → UnpackedFloat → UnpackedFloat}
    (hl : ∀ s s' v, UpToZero (f (.zero s) v) (f (.zero s') v))
    (hr : ∀ u s s', UpToZero (f u (.zero s)) (f u (.zero s'))) : KeepsUpToZero f := by
  intro u u' v v' hu hv
  have hleft : UpToZero (f u v) (f u' v) := by
    cases hu with
    | refl => exact .refl _
    | zero s s' => exact hl s s' v
  have hright : UpToZero (f u' v) (f u' v') := by
    cases hv with
    | refl => exact .refl _
    | zero s s' => exact hr u' s s'
  exact hleft.trans hright

lemma upToZero_ite {p q : Prop} [Decidable p] [Decidable q] {s s' t t' : Sign} :
    UpToZero (if p then .zero s else .zero t) (if q then .zero s' else .zero t') := by
  split <;> split <;> exact .zero _ _

lemma keepsUpToZero_add : KeepsUpToZero (.add Format.binary64) := by
  apply keepsUpToZero_of_zero
  · intro s s' v
    cases v with
    | zero t => exact upToZero_ite
    | _ => exact .refl _
  · intro u s s'
    cases u with
    | zero t => exact upToZero_ite
    | _ => exact .refl _

lemma UpToZero.neg (h : UpToZero u v) : UpToZero u.neg v.neg := by
  cases h with
  | refl => exact .refl _
  | zero s s' => exact .zero _ _

/-- To subtract is to add what is negated. -/
lemma sub_eq_add (spec : Format) (u v : UnpackedFloat) :
    UnpackedFloat.sub spec u v = UnpackedFloat.add spec u v.neg := by
  cases u with
  | finite s₁ m₁ e₁ h₁ =>
    cases v with
    | finite s₂ m₂ e₂ h₂ =>
      have happly (m : Int) : (-s₂).apply m = -s₂.apply m := by
        cases s₂ with
        | positive => rfl
        | negative => exact (Int.neg_neg m).symm
      simp only [UnpackedFloat.sub, UnpackedFloat.neg, UnpackedFloat.add, happly,
        Int.sub_eq_add_neg]
    | _ => rfl
  | _ => cases v <;> rfl

lemma keepsUpToZero_sub : KeepsUpToZero (.sub Format.binary64) := by
  intro u u' v v' hu hv
  rw [sub_eq_add, sub_eq_add]
  exact keepsUpToZero_add _ _ _ _ hu hv.neg

lemma keepsUpToZero_mul : KeepsUpToZero (.mul Format.binary64) := by
  apply keepsUpToZero_of_zero
  · intro s s' v
    cases v with
    | notANumber => exact .refl _
    | infinity t => exact .refl _
    | zero t => exact .zero _ _
    | finite t m e hm => exact .zero _ _
  · intro u s s'
    cases u with
    | notANumber => exact .refl _
    | infinity t => exact .refl _
    | zero t => exact .zero _ _
    | finite t m e hm => exact .zero _ _

/-- The dividend may be a zero of either sign. The divisor may not: it decides the sign of an
infinity. -/
lemma div_upToZero (h : UpToZero u u') (v : UnpackedFloat) :
    UpToZero (.div Format.binary64 u v) (.div Format.binary64 u' v) := by
  cases h with
  | refl => exact .refl _
  | zero s s' =>
    cases v with
    | notANumber => exact .refl _
    | infinity t => exact .zero _ _
    | zero t => exact .refl _
    | finite t m e hm => exact .zero _ _

/-! ### Arithmetic -/

namespace Number

lemma Equal.upToZero (h : x.Equal y) : UpToZero x.toModel.unpack y.toModel.unpack := by
  rcases equal_iff.1 h with rfl | ⟨rfl, rfl⟩ | ⟨rfl, rfl⟩
  · exact .refl _
  · exact .zero .positive .negative
  · exact .zero .negative .positive

lemma equal_of_upToZero (h : UpToZero u v) : Equal (.ofModel (.pack u)) (.ofModel (.pack v)) := by
  rw [equal_iff]
  cases h with
  | refl => exact .inl rfl
  | zero s s' =>
    cases s <;> cases s'
    · exact .inl rfl
    · exact .inr (.inr ⟨rfl, rfl⟩)
    · exact .inr (.inl ⟨rfl, rfl⟩)
    · exact .inl rfl

end Number

end Calculator
