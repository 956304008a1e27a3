import Calculator.Proofs.Number.Text

/-!
# Numbers that are read

Digits read as a number whose sign bit is clear, however many there are of them: rounding may lead
to zero or to infinity, but never to the number that is none. A sign in front turns the sign bit and
keeps the rest. So whatever a number is written with reads back as it, and no two numbers are
written alike.
-/

namespace Calculator

open Float.Model Float.Model.UnpackedFloat

variable {spec : Format} {s : Sign} {c : Char} {cs : List Char} {x : Number}

namespace Number

/-! ### Packing signs -/

lemma sign?_unpack_packComponents {E : BitVec spec.exponentBits}
    {M : BitVec spec.mantissaBitsWithoutImplicit} (h : E = -1#_ → M = 0#_) :
    sign? (.unpack spec (packComponents spec s E M)) = some s := by
  simp only [UnpackedFloat.unpack, unpackMantissa_packComponents, unpackExponent_packComponents,
    unpackSign_packComponents, Sign.ofBitVec_toBitVec]
  split
  · next hE =>
    rw [if_pos (h hE)]
    rfl
  · split
    · split <;> rfl
    · rfl

/-- A number has the sign that it is packed with. -/
lemma sign?_unpack_pack (u : UnpackedFloat) :
    sign? (.unpack spec (UnpackedFloat.pack spec u)) = sign? u := by
  fun_cases UnpackedFloat.pack spec u with
  | case1 => rw [unpack_packedNaN]
  | case2 s =>
    rw [packedInfinity]
    exact sign?_unpack_packComponents fun _ => rfl
  | case3 s =>
    rw [packedZero]
    exact sign?_unpack_packComponents fun _ => rfl
  | case4 s m e hm biased hinf =>
    rw [packedInfinity]
    exact sign?_unpack_packComponents fun _ => rfl
  | case5 s m e hm bits biased hinf hbits =>
    -- the exponent of all ones belongs to the infinities, which case 4 has taken care of
    apply sign?_unpack_packComponents
    intro hones
    have hbiased : biased % 2 ^ spec.exponentBits = 2 ^ spec.exponentBits - 1 := by
      simpa [BitVec.neg_one_eq_allOnes] using congrArg BitVec.toNat hones
    rw [Nat.mod_eq_of_lt (by omega)] at hbiased
    omega
  | case6 s m e hm bits biased hinf hbits =>
    apply sign?_unpack_packComponents
    simp [Nat.ne_of_gt spec.he]

/-- What unpacks to a number with one sign can be packed with the other sign as well. -/
lemma unpack_pack_neg (b : BitVec spec.numBits) (hspec : 2 ≤ spec.exponentBits) :
    UnpackedFloat.unpack spec (UnpackedFloat.pack spec (UnpackedFloat.unpack spec b).neg) =
      (UnpackedFloat.unpack spec b).neg := by
  -- turning the sign bit gives bits that are known to be packed from what they unpack to
  have hneg : UnpackedFloat.unpack spec (packComponents spec (-Sign.ofBitVec (unpackSign b))
      (unpackExponent b) (unpackMantissa b)) = (UnpackedFloat.unpack spec b).neg := by
    simp only [UnpackedFloat.unpack, unpackMantissa_packComponents, unpackExponent_packComponents,
      unpackSign_packComponents, Sign.ofBitVec_toBitVec]
    split_ifs <;> rfl
  rw [← hneg, pack_unpack _ hspec]
  split
  · next hnan =>
    simp only [isNaNBits, unpackExponent_packComponents, unpackMantissa_packComponents,
      decide_eq_true_eq] at hnan
    rw [unpack_packedNaN, hneg, UnpackedFloat.unpack, if_pos hnan.1, if_neg hnan.2]
    rfl
  · rfl

lemma unpack_neg (x : Number) : (-x).toModel.unpack = x.toModel.unpack.neg :=
  @unpack_pack_neg Format.binary64 x.toModel.toBits.toBitVec (by decide)

protected lemma neg_neg (x : Number) : - -x = x := by
  have hneg (u : UnpackedFloat) : u.neg.neg = u := by
    rcases u with ⟨⟨⟩⟩ | _ | ⟨⟨⟩⟩ | ⟨⟨⟩, _, _, _⟩ <;> rfl
  calc - -x = .ofModel (.pack (-x).toModel.unpack.neg) := rfl
    _ = .ofModel (.pack x.toModel.unpack) := by rw [unpack_neg, hneg]
    _ = x := ofModel_pack_unpack x

lemma sign?_neg (u : UnpackedFloat) : sign? u.neg = (sign? u).map fun s => -s := by
  cases u <;> rfl

lemma signBit_eq_false (h : sign? x.toModel.unpack = some .positive) :
    signBit x.toBits = false := by
  have hsign := sign_eq h
  by_contra hbit
  rw [Bool.not_eq_false] at hbit
  rw [hbit] at hsign
  cases hsign

lemma isNaN_eq_false (h : sign? x.toModel.unpack = some s) : x.isNaN = false := by
  rw [Bool.eq_false_iff, Ne, isNaN_iff]
  intro hu
  rw [hu] at h
  cases h

lemma exists_sign? (hx : ¬ x.isNaN = true) : ∃ s, sign? x.toModel.unpack = some s := by
  rw [isNaN_iff] at hx
  cases hu : x.toModel.unpack with
  | notANumber => exact absurd hu hx
  | infinity s => exact ⟨s, rfl⟩
  | zero s => exact ⟨s, rfl⟩
  | finite s m e hm => exact ⟨s, rfl⟩

/-! ### Decimals -/

lemma sign?_roundWithAccuracy (s : Sign) (m : Nat) (e : Int) (acc : Accuracy) :
    sign? (roundWithAccuracy spec s m e acc) = some s := by
  simp only [roundWithAccuracy]
  split <;> rfl

lemma sign?_ofScientific (n : Nat) (e : Int) :
    sign? (.ofScientific spec n e) = some .positive := by
  fun_cases UnpackedFloat.ofScientific spec n e with
  | case1 => rfl
  | case2 => rfl
  | case3 => rfl
  | case4 => exact sign?_roundWithAccuracy _ _ _ _
  | case5 => exact sign?_roundWithAccuracy _ _ _ _

/-- Rounding a decimal gives a number without a minus sign. -/
theorem sign?_toFloat (d : Decimal) : sign? d.toFloat.toModel.unpack = some .positive :=
  (sign?_unpack_pack _).trans (sign?_ofScientific _ _)

/-! ### What is written reads back -/

lemma read?_minus (h : Numeral.read? cs = some x) (hsign : Numeral.sign cs = (false, cs)) :
    Numeral.read? ('-' :: cs) = some (-x) := by
  have hminus : Numeral.sign ('-' :: cs) = (true, cs) := rfl
  have hsize : Numeral.unsigned? cs = some x := by
    simpa [Numeral.read?, hsign] using h
  simp [Numeral.read?, hminus, hsize]

lemma write_neg (h : sign? x.toModel.unpack = some .positive) : (-x).write = '-' :: x.write := by
  rw [write, write, unpack_neg]
  cases hu : x.toModel.unpack <;> rw [hu] at h <;> cases h <;> rfl

lemma read?_write_of_isFinite (hx : x.isFinite = true) (hbit : signBit x.toBits = false) :
    Numeral.read? x.write = some x ∧ Numeral.sign x.write = (false, x.write) := by
  obtain ⟨d, hwrite, hd⟩ := exists_positional hx hbit
  rw [hwrite, Numeral.read?_positional, hd]
  refine ⟨rfl, ?_⟩
  obtain ⟨hplain, hne⟩ := d.isPlainNumeral_positional
  obtain ⟨c, cs, hcs⟩ := List.exists_cons_of_ne_nil hne
  rw [hcs] at hplain ⊢
  exact Numeral.sign_cons (isDigit_or_point_of_plain hplain List.mem_cons_self)

lemma read?_write_of_positive (h : sign? x.toModel.unpack = some .positive) :
    Numeral.read? x.write = some x ∧ Numeral.sign x.write = (false, x.write) := by
  have hbit := signBit_eq_false h
  cases hu : x.toModel.unpack with
  | notANumber =>
    rw [hu] at h
    cases h
  | infinity s =>
    obtain rfl := eq_positive_of_unpack hu rfl hbit
    have hx : x = infinity := by
      rw [← x.ofModel_pack_unpack, hu]
      rfl
    rw [hx]
    exact ⟨by decide +kernel, by decide +kernel⟩
  | zero s => exact read?_write_of_isFinite (isFinite_iff.2 (.inl ⟨s, hu⟩)) hbit
  | finite s m e hm => exact read?_write_of_isFinite (isFinite_iff.2 (.inr ⟨s, m, e, hm, hu⟩)) hbit

/-- What a number is written with reads back as it. -/
theorem read?_write (x : Number) : Numeral.read? x.write = some x := by
  by_cases hnan : x.isNaN = true
  · have hx : x = nan := by
      rw [← x.ofModel_pack_unpack, isNaN_iff.1 hnan]
      rfl
    rw [hx]
    decide +kernel
  · obtain ⟨s, hs⟩ := exists_sign? hnan
    cases s with
    | positive => exact (read?_write_of_positive hs).1
    | negative =>
      have hneg : sign? (-x).toModel.unpack = some .positive := by
        rw [unpack_neg, sign?_neg, hs]
        rfl
      obtain ⟨hread, hsign⟩ := read?_write_of_positive hneg
      have hwrite := write_neg hneg
      rw [Number.neg_neg] at hwrite
      rw [hwrite, read?_minus hread hsign, Number.neg_neg]

theorem write_injective : Function.Injective write := by
  intro x y h
  have hread := read?_write x
  rw [h, read?_write y] at hread
  exact (Option.some.inj hread).symm

/-! ### The end of a number -/

lemma write_ne_nil (x : Number) : x.write ≠ [] := by
  intro h
  have hnone : Numeral.read? [] = none := by decide +kernel
  have hread := read?_write x
  rw [h, hnone] at hread
  cases hread

/-- No character of a number delimits an operand. -/
lemma not_delimiter_of_mem_write (h : c ∈ x.write) : c ∉ [' ', '(', ')'] := by
  intro hc
  simp only [List.mem_cons, List.not_mem_nil, or_false] at hc
  have hclass := isDigit_or_mem_of_mem_write h
  rcases hc with rfl | rfl | rfl <;> exact absurd hclass (by decide)

end Number

end Calculator
