import Calculator.Proofs.Decimal.Exact
import Calculator.Proofs.Token.Numeral
import Mathlib

/-!
# The texts of numbers

A finite number is written with digits and at most one point, behind a minus sign if its sign bit is
set, and never with an exponent. So it reads as a numeral, and the number comes back bit for bit:
what is written has the value of the decimal that was found for it, and this reads back as the
number because the exact value does.
-/

namespace Calculator

open Float.Model Float.Model.UnpackedFloat

variable {c : Char} {cs : List Char} {n : Nat} {x : Number}

/-! ### Positional notation -/

namespace Decimal

lemma isDigit_of_zeros_or_digits {k : Nat}
    (h : c ∈ List.replicate k '0' ∨ c ∈ Nat.toDigits 10 n) : c.isDigit = true := by
  rcases h with hc | hc
  · rw [List.eq_of_mem_replicate hc]
    rfl
  · exact Nat.isDigit_of_mem_toDigits (by decide) (by decide) hc

/-- Zeros at the end of the digits count as much as a higher exponent. -/
lemma toFloat_mul_ten_pow (n k : Nat) (e : Int) :
    toFloat ⟨n * 10 ^ k, e⟩ = toFloat ⟨n, e + k⟩ := by
  have htrim : trim ⟨n * 10 ^ k, e⟩ = trim ⟨n, e + k⟩ := by
    induction k generalizing e with
    | zero => simp
    | succ k ih =>
      rw [pow_succ, ← mul_assoc, trim_mul_ten, ih]
      congr 2
      push_cast
      ring
  rw [toFloat, htrim]
  rfl

lemma positional_ofNat (n k : Nat) :
    positional ⟨n, .ofNat k⟩ = Nat.toDigits 10 n ++ List.replicate k '0' := rfl

lemma positional_negSucc (n k : Nat) : ∃ us vs, positional ⟨n, .negSucc k⟩ = us ++ '.' :: vs ∧
    us ++ vs = padded (k + 1 + 1) n ∧ vs.length = k + 1 := by
  have hlength := le_length_padded (k + 1 + 1) n
  simp only [positional]
  generalize padded (k + 1 + 1) n = digits at hlength
  refine ⟨_, _, rfl, List.take_append_drop _ _, ?_⟩
  rw [List.length_drop]
  omega

/-- A decimal is written with digits alone, or with digits around a point. -/
theorem positional_cases (d : Decimal) :
    (d.positional ≠ [] ∧ (∀ c ∈ d.positional, c.isDigit = true) ∧
      toFloat ⟨Nat.ofDigitChars 10 d.positional 0, 0⟩ = d.toFloat) ∨
    ∃ us vs, d.positional = us ++ '.' :: vs ∧ us ++ vs ≠ [] ∧
      (∀ c ∈ us ++ vs, c.isDigit = true) ∧
      toFloat ⟨Nat.ofDigitChars 10 (us ++ vs) 0, -vs.length⟩ = d.toFloat := by
  obtain ⟨D, E⟩ := d
  cases E with
  | ofNat k =>
    rw [positional_ofNat]
    refine .inl ⟨List.append_ne_nil_of_left_ne_nil Nat.toDigits_ne_nil _, ?_, ?_⟩
    · intro c hc
      exact isDigit_of_zeros_or_digits (List.mem_append.1 hc).symm
    · -- zeros behind the digits stand for the power of ten
      rw [Nat.ofDigitChars_append, Nat.ofDigitChars_ten_toDigits, Nat.ofDigitChars_replicate_zero,
        mul_comm, toFloat_mul_ten_pow, zero_add]
      rfl
  | negSucc k =>
    obtain ⟨us, vs, hus, hpadded, hvs⟩ := positional_negSucc D k
    refine .inr ⟨us, vs, hus, ?_, ?_, ?_⟩
    · rw [← List.length_pos_iff, List.length_append]
      omega
    · intro c hc
      rw [hpadded] at hc
      exact isDigit_of_zeros_or_digits (List.mem_append.1 hc)
    · -- zeros in front of the digits do not count, and the point is as far on as the exponent says
      rw [hpadded, ofDigitChars_padded, hvs]
      rfl

/-- What a decimal is written with is a plain numeral. -/
lemma isPlainNumeral_positional (d : Decimal) :
    isPlainNumeral d.positional = true ∧ d.positional ≠ [] := by
  rcases d.positional_cases with ⟨hne, hdigits, -⟩ | ⟨us, vs, hus, -, hdigits, -⟩
  · exact ⟨isPlainNumeral_iff.2 (.inl hdigits), hne⟩
  · obtain ⟨husd, hvsd⟩ := List.forall_mem_append.1 hdigits
    refine ⟨isPlainNumeral_iff.2 (.inr ⟨us, vs, hus, husd, hvsd⟩), ?_⟩
    rw [hus]
    exact List.append_ne_nil_of_right_ne_nil us (List.cons_ne_nil _ vs)

end Decimal

namespace Numeral

lemma read?_of_plain (h : isPlainNumeral cs = true) (hne : cs ≠ []) :
    read? cs = (decimal? cs).map Decimal.toFloat := by
  obtain ⟨c, ds, rfl⟩ := List.exists_cons_of_ne_nil hne
  have hc := isDigit_or_point_of_plain h List.mem_cons_self
  simp [read?, sign_cons hc, unsigned?, word?_cons hc, Function.comp_def]

/-- What a decimal is written with reads as the number that the decimal stands for. -/
theorem read?_positional (d : Decimal) : read? d.positional = some d.toFloat := by
  obtain ⟨hplain, hne⟩ := d.isPlainNumeral_positional
  rw [read?_of_plain hplain hne]
  rcases d.positional_cases with ⟨-, hdigits, hd⟩ | ⟨us, vs, hus, hne, hdigits, hd⟩
  · rw [← hd]
    simp [decimal?, List.takeWhile_eq_self_iff.2 hdigits, List.dropWhile_eq_nil_iff.2 hdigits,
      fraction, hne, exponent?]
  · obtain ⟨husd, hvsd⟩ := List.forall_mem_append.1 hdigits
    obtain ⟨htake, hdrop⟩ := run_exact husd (not_startsIn_point vs)
    have hfraction : fraction ('.' :: vs) = (vs, []) := by
      rw [fraction, List.takeWhile_eq_self_iff.2 hvsd, List.dropWhile_eq_nil_iff.2 hvsd]
    simp only [hus, decimal?, htake, hdrop, hfraction, if_neg hne, exponent?, Option.map_some,
      zero_sub, hd]

end Numeral

namespace Number

/-! ### Signs -/

/-- The sign bit, the first of the bits of a number. -/
def signBit (bits : UInt64) : Bool :=
  bits.toBitVec.msb

/-- The sign of a number, unless it stands for none. -/
def sign? : UnpackedFloat → Option Sign
  | .notANumber => none
  | .infinity s => some s
  | .zero s => some s
  | .finite s _ _ _ => some s

lemma unpackSign_eq (b : BitVec 64) :
    @unpackSign Format.binary64 b = BitVec.ofBool b.msb := by
  ext i hi
  obtain rfl : i = 0 := by omega
  simpa [unpackSign, BitVec.msb_eq_getLsbD_last] using BitVec.getLsbD_eq_getElem (by decide)

/-- The sign of a number is told by its sign bit. -/
lemma sign_eq {s : Sign} (h : sign? x.toModel.unpack = some s) :
    s = if signBit x.toBits then .negative else .positive := by
  have hbit : Sign.ofBitVec (@unpackSign Format.binary64 x.toModel.toBits.toBitVec) =
      if signBit x.toBits then .negative else .positive := by
    rw [unpackSign_eq, ← signBit, ← Float.toBits]
    cases signBit x.toBits <;> rfl
  rw [← hbit]
  rw [Float.Model.unpack] at h
  revert h
  fun_cases UnpackedFloat.unpack Format.binary64 x.toModel.toBits.toBitVec with
  | case1 => exact fun h => (Option.some.inj h).symm
  | case2 => rintro ⟨⟩
  | case3 => exact fun h => (Option.some.inj h).symm
  | case4 => exact fun h => (Option.some.inj h).symm
  | case5 => exact fun h => (Option.some.inj h).symm

lemma eq_positive_of_unpack {u : UnpackedFloat} {s : Sign} (hu : x.toModel.unpack = u)
    (hs : sign? u = some s) (hsign : signBit x.toBits = false) : s = .positive := by
  subst hu
  rw [sign_eq hs, hsign]
  rfl

lemma eq_negative_of_unpack {u : UnpackedFloat} {s : Sign} (hu : x.toModel.unpack = u)
    (hs : sign? u = some s) (hsign : signBit x.toBits = true) : s = .negative := by
  subst hu
  rw [sign_eq hs, hsign]
  rfl

/-! ### Classes of numbers -/

lemma isNaN_iff : x.isNaN = true ↔ x.toModel.unpack = .notANumber :=
  UnpackedFloat.isNaN_iff

lemma isInf_iff : x.isInf = true ↔ ∃ s, x.toModel.unpack = .infinity s := by
  change x.toModel.unpack.isInf = true ↔ _
  cases x.toModel.unpack <;> simp [UnpackedFloat.isInf]

lemma isFinite_iff : x.isFinite = true ↔ (∃ s, x.toModel.unpack = .zero s) ∨
    ∃ s m e hm, x.toModel.unpack = .finite s m e hm := by
  change x.toModel.unpack.isFinite = true ↔ _
  cases x.toModel.unpack with
  | notANumber => simp [UnpackedFloat.isFinite]
  | infinity s => simp [UnpackedFloat.isFinite]
  | zero s => simp [UnpackedFloat.isFinite]
  | finite s m e hm => simp [UnpackedFloat.isFinite, hm]

lemma not_isNaN_of_isFinite (h : x.isFinite = true) : ¬ x.isNaN = true := by
  rw [isNaN_iff]
  rcases isFinite_iff.1 h with ⟨s, hu⟩ | ⟨s, m, e, hm, hu⟩ <;> rw [hu] <;> exact nofun

lemma not_isNaN_of_isInf (h : x.isInf = true) : ¬ x.isNaN = true := by
  obtain ⟨s, hu⟩ := isInf_iff.1 h
  rw [isNaN_iff, hu]
  exact nofun

/-- A number consists of what it unpacks to. -/
lemma ofModel_pack_unpack (x : Number) : .ofModel (.pack x.toModel.unpack) = x := by
  rw [← Float.toBits_inj, ← UInt64.toBitVec_inj]
  exact pack_unpack_of_valid x.toModel.valid

/-- A number has the bits that it was made from, unless these stand for no number. -/
lemma toBits_ofBits {bits : UInt64} (h : ¬ (Float.ofBits bits).isNaN = true) :
    (Float.ofBits bits).toBits = bits := by
  have hpack : (Float.ofBits bits).toModel.toBits.toBitVec = _ :=
    @pack_unpack Format.binary64 bits.toBitVec (by decide)
  rw [← UInt64.toBitVec_inj]
  split at hpack
  · exact absurd ((isNaN_unpack_iff_of_valid (Float.ofBits bits).toModel.valid).2 hpack) h
  · exact hpack

/-! ### What a number is written with -/

lemma write_of_isNaN (hx : x.isNaN = true) : x.write = ['N', 'a', 'N'] := by
  rw [write, isNaN_iff.1 hx]

lemma write_of_isInf (hx : x.isInf = true) (hsign : signBit x.toBits = false) :
    x.write = ['i', 'n', 'f'] := by
  obtain ⟨s, hu⟩ := isInf_iff.1 hx
  obtain rfl := eq_positive_of_unpack hu rfl hsign
  rw [write, hu]
  rfl

/-- A number with a minus sign starts with it. -/
lemma exists_write_eq_cons (hx : ¬ x.isNaN = true) (hsign : signBit x.toBits = true) :
    ∃ cs, x.write = '-' :: cs := by
  rw [isNaN_iff] at hx
  rw [write]
  cases hu : x.toModel.unpack with
  | notANumber => exact absurd hu hx
  | infinity s =>
    obtain rfl := eq_negative_of_unpack hu rfl hsign
    exact ⟨_, rfl⟩
  | zero s =>
    obtain rfl := eq_negative_of_unpack hu rfl hsign
    exact ⟨_, rfl⟩
  | finite s m e hm =>
    obtain rfl := eq_negative_of_unpack hu rfl hsign
    exact ⟨_, rfl⟩

/-- A finite number without a minus sign is written as a decimal that reads back as it. -/
theorem exists_positional (hx : x.isFinite = true) (hsign : signBit x.toBits = false) :
    ∃ d : Decimal, x.write = d.positional ∧ d.toFloat = x := by
  have hpack := x.ofModel_pack_unpack
  rcases isFinite_iff.1 hx with ⟨s, hu⟩ | ⟨s, m, e, hm, hu⟩
  · obtain rfl := eq_positive_of_unpack hu rfl hsign
    rw [hu] at hpack
    refine ⟨⟨0, 0⟩, by rw [write, hu]; rfl, ?_⟩
    rw [← hpack, Decimal.toFloat, Decimal.trim_of_digits_eq_zero rfl]
    rfl
  · obtain rfl := eq_positive_of_unpack hu rfl hsign
    rw [hu] at hpack
    obtain ⟨hcanonical, he⟩ := isCanonical_of_unpack hu
    refine ⟨Decimal.shortest x (.ofBinary m e), ?_, ?_⟩
    · rw [write, hu]
      simp only [hpack]
      rfl
    · apply Decimal.toFloat_shortest
      rw [Decimal.toFloat_of_toRat hm hcanonical he (Decimal.toRat_ofBinary m e), hpack]

/-- The characters that numbers are written with. -/
lemma isDigit_or_mem_of_mem_write (h : c ∈ x.write) :
    c.isDigit = true ∨ c ∈ ['-', '.', 'i', 'n', 'f', 'N', 'a'] := by
  have hsign {s : Sign} (hc : c ∈ signText s) : c = '-' := by
    cases s with
    | negative => exact List.mem_singleton.1 hc
    | positive => cases hc
  rw [write] at h
  cases hu : x.toModel.unpack with
  | notANumber =>
    rw [hu] at h
    have hword : ['N', 'a', 'N'] ⊆ ['-', '.', 'i', 'n', 'f', 'N', 'a'] := by decide
    exact .inr (hword h)
  | infinity s =>
    rw [hu] at h
    have hword : ['i', 'n', 'f'] ⊆ ['-', '.', 'i', 'n', 'f', 'N', 'a'] := by decide
    rcases List.mem_append.1 h with hc | hc
    · simp [hsign hc]
    · exact .inr (hword hc)
  | zero s =>
    rw [hu] at h
    rcases List.mem_append.1 h with hc | hc
    · simp [hsign hc]
    · rw [List.mem_singleton.1 hc]
      exact .inl rfl
  | finite s m e hm =>
    rw [hu] at h
    rcases List.mem_append.1 h with hc | hc
    · simp [hsign hc]
    · rcases isDigit_or_point_of_plain (Decimal.isPlainNumeral_positional _).1 hc with hc | rfl
      · exact .inl hc
      · right
        simp

end Number

end Calculator
