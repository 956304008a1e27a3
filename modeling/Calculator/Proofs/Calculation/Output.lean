import Calculator.Calculation
import Calculator.Proofs.Number.Text
import Calculator.Proofs.Parsing.Grammar
import Calculator.Proofs.Parsing.Rejection
import Calculator.Proofs.Token.Partition

/-!
# Calculating with what was calculated

The text of a number is a text like any other, and can be calculated in its turn. If it is a plain
numeral, then it is one token and its value is the number itself. Otherwise its first token is
rejected at once: it is the minus sign, or a word.
-/

namespace Calculator

variable {s : String} {t : Token} {ts : List Token} {cs : List Char} {x : Number}
  {fault : SyntaxError.Fault}

/-! ### Plain numerals -/

lemma isWordChar_of_plain (h : isPlainNumeral cs = true) : ∀ c ∈ cs, isWordChar c = true := by
  have hapart : ∀ d ∈ [' ', '\t', '\n', '(', ')', '+', '-', '*', '/'],
      ¬ (d.isDigit = true ∨ d = '.') := by simp
  intro c hc
  rw [isWordChar_iff]
  intro hmem
  exact hapart c hmem (isDigit_or_point_of_plain h hc)

/-- A plain numeral is a single token. -/
lemma lexemes_of_plain (h : isPlainNumeral s.toList = true) (hne : s.toList ≠ []) :
    (Cursor.ofText s).lexemes = [⟨.number, s, 0⟩] := by
  have htokens := Cursor.tokens_word_run (n := 0) (b := []) hne (isWordChar_of_plain h)
    (by simp [StartsIn])
  rw [List.append_nil, String.ofList_toList, Token.Kind.ofWord, if_pos h] at htokens
  simp [Cursor.lexemes, Cursor.ofText, htokens]

lemma calculate_of_plain (h : isPlainNumeral s.toList = true) (hne : s.toList ≠ [])
    (hx : Number.ofText? s = some x) : calculate s = .ok x := by
  have hparse : (parse s).result = .ok (.number x) := by
    rw [Parsing.parse_eq_ok_iff, lexemes_of_plain h hne]
    exact .ofTerm (.ofValue (.number rfl hx))
  rw [calculate, hparse]
  rfl

/-! ### Rejected numbers -/

/-- A text is rejected at its first token if no expression starts with that. -/
lemma calculate_of_head (h : Token.visible s = t :: ts)
    (ht : Parsing.Stack.empty.feed t = .reject fault t) :
    calculate s = .error (.malformed ⟨fault, t, s⟩) := by
  have hparse : (parse s).result = .error ⟨fault, t, s⟩ :=
    Parsing.parse_eq_error_iff.2 ⟨rfl, [], ts, .empty, h, rfl, ht⟩
  rw [calculate, hparse]

lemma calculate_of_minus (h : s.toList = '-' :: cs) :
    calculate s = .error (.malformed ⟨.unexpected .operand, ⟨.operator .sub, "-", 0⟩, s⟩) := by
  have hlexemes : Token.visible s = ⟨.operator .sub, "-", 0⟩ ::
      ((Cursor.lexemes ⟨cs, 1⟩) ++ [⟨.eof, "", s.utf8ByteSize⟩]) := by
    rw [Token.visible_eq, Cursor.ofText, h, Cursor.lexemes_symbol rfl]
    rfl
  exact calculate_of_head hlexemes rfl

/-- The text of a finite number without a minus sign is calculated to give the number back, bit for
bit. All other texts of numbers are rejected at their start: those with a minus sign at the sign,
those of an infinity and of a number that is none at the word that they are. So a calculation with a
finite result that has no minus sign can be repeated on its result. -/
theorem calculate_text :
    (∀ bits : UInt64, (Float.ofBits bits).isFinite = true → Number.signBit bits = false →
      ∃ x, calculate (Number.text (.ofBits bits)) = .ok x ∧ x.toBits = bits) ∧
    (∀ bits : UInt64, (Float.ofBits bits).isNaN = false → Number.signBit bits = true →
      calculate (Number.text (.ofBits bits)) = .error (.malformed
        ⟨.unexpected .operand, ⟨.operator .sub, "-", 0⟩, Number.text (.ofBits bits)⟩)) ∧
    (∀ bits : UInt64, (Float.ofBits bits).isInf = true → Number.signBit bits = false →
      calculate (Number.text (.ofBits bits)) = .error (.malformed
        ⟨.unexpected .operand, ⟨.text, "inf", 0⟩, "inf"⟩)) ∧
    (∀ bits : UInt64, (Float.ofBits bits).isNaN = true →
      calculate (Number.text (.ofBits bits)) = .error (.malformed
        ⟨.unexpected .operand, ⟨.text, "NaN", 0⟩, "NaN"⟩)) ∧
    ∀ (s : String) (x : Number), calculate s = .ok x → x.isFinite = true →
      Number.signBit x.toBits = false → calculate x.text = calculate s := by
  -- the text of such a number is a plain numeral, which is read as that number
  have hok {x : Number} (hx : x.isFinite = true) (hsign : Number.signBit x.toBits = false) :
      calculate x.text = .ok x := by
    obtain ⟨d, hd, hdx⟩ := Number.exists_positional hx hsign
    obtain ⟨hplain, hne⟩ := d.isPlainNumeral_positional
    apply calculate_of_plain
    · rwa [Number.toList_text, hd]
    · rwa [Number.toList_text, hd]
    · rw [Number.ofText?, Number.toList_text, hd, Numeral.read?_positional, hdx]
  refine ⟨?_, ?_, ?_, ?_, ?_⟩
  · intro bits hx hsign
    have hbits := Number.toBits_ofBits (Number.not_isNaN_of_isFinite hx)
    rw [← hbits] at hsign
    exact ⟨_, hok hx hsign, hbits⟩
  · intro bits hx hsign
    rw [← Bool.not_eq_true] at hx
    -- the text starts with the sign, where an operand is wanted
    rw [← Number.toBits_ofBits hx] at hsign
    obtain ⟨cs, hcs⟩ := Number.exists_write_eq_cons hx hsign
    exact calculate_of_minus (by rw [Number.toList_text, hcs])
  · intro bits hx hsign
    rw [← Number.toBits_ofBits (Number.not_isNaN_of_isInf hx)] at hsign
    have htext : Number.text (.ofBits bits) = "inf" := by
      rw [Number.text, Number.write_of_isInf hx hsign]
    rw [htext]
    decide +kernel
  · intro bits hx
    have htext : Number.text (.ofBits bits) = "NaN" := by
      rw [Number.text, Number.write_of_isNaN hx]
    rw [htext]
    decide +kernel
  · intro s x hs hx hsign
    rw [hs, hok hx hsign]

theorem calculate_text_sum :
    calculate "0.1+0.2" = .ok (.ofBits 0x3fd3333333333334) ∧
      Number.text (.ofBits 0x3fd3333333333334) = "0.30000000000000004" ∧
      calculate "0.30000000000000004" = .ok (.ofBits 0x3fd3333333333334) := by
  have h : calculate "0.1+0.2" = .ok (.ofBits 0x3fd3333333333334) := by decide +kernel
  have htext : Number.text (.ofBits 0x3fd3333333333334) = "0.30000000000000004" := by
    decide +kernel
  refine ⟨h, htext, ?_⟩
  rw [← htext, ← h]
  exact calculate_text.2.2.2.2 _ _ h (by decide +kernel) (by decide +kernel)

end Calculator
