import Calculator.Proofs.Token.Numeral
import Calculator.Proofs.Token.Partition
import Mathlib.Data.String.Basic

/-!
# Words that read as numbers

There are no signs in a word, so that it reads as a number in three cases: it consists of digits
with at most one point, and of at least one digit; it is such a numeral with an exponent behind it;
or it is one of the names that numbers have. A number token can only be of the first sort.
-/

namespace Calculator

variable {c : Char} {cs us vs : List Char} {w : String}

/-- A name of a number, in capitals or not. -/
def IsNameText (w : String) : Prop :=
  w.toLower ∈ ["inf", "infinity", "nan"]

/-- A numeral, an `e` and at least one more digit. -/
def IsExponentText (w : String) : Prop :=
  ∃ us c vs, w.toList = us ++ c :: vs ∧ IsNumeralText (.ofList us) ∧ us ≠ [] ∧ us ≠ ['.'] ∧
    (c = 'e' ∨ c = 'E') ∧ vs ≠ [] ∧ ∀ d ∈ vs, d.isDigit = true

namespace Numeral

lemma sign_of_word (h : ∀ c ∈ cs, isWordChar c = true) : sign cs = (false, cs) := by
  fun_cases sign cs with
  | case1 ds => exact absurd (h '-' List.mem_cons_self) (by decide)
  | case2 ds => exact absurd (h '+' List.mem_cons_self) (by decide)
  | case3 => rfl

lemma read?_ne_none_iff_of_word (h : ∀ c ∈ cs, isWordChar c = true) :
    read? cs ≠ none ↔ word? cs ≠ none ∨ decimal? cs ≠ none := by
  simp only [read?, sign_of_word h, unsigned?]
  cases word? cs <;> simp

lemma word?_ne_none_iff : word? cs ≠ none ↔ IsNameText (.ofList cs) := by
  have hlower : (String.ofList cs).toLower = .ofList (cs.map Char.toLower) :=
    calc (String.ofList cs).toLower = (String.ofList cs).map Char.toLower := rfl
      _ = .ofList (cs.map Char.toLower) := by simp [← String.toList_inj]
  have hword : word? cs ≠ none ↔
      (cs.map Char.toLower = ['i', 'n', 'f'] ∨
        cs.map Char.toLower = ['i', 'n', 'f', 'i', 'n', 'i', 't', 'y']) ∨
      cs.map Char.toLower = ['n', 'a', 'n'] := by
    simp only [word?]
    split_ifs <;> simp_all
  rw [hword, or_assoc]
  simp only [IsNameText, hlower, List.mem_cons, List.not_mem_nil, or_false, String.ofList_eq]
  rfl

/-! ### Exponents -/

lemma exponent?_ne_none_iff (h : ∀ c ∈ vs, isWordChar c = true) :
    exponent? vs ≠ none ↔ vs = [] ∨ ∃ c ds, vs = c :: ds ∧ (c = 'e' ∨ c = 'E') ∧ ds ≠ [] ∧
      ∀ d ∈ ds, d.isDigit = true := by
  cases vs with
  | nil => simp [exponent?]
  | cons c ds =>
    have hsign := sign_of_word (List.forall_mem_cons.1 h).2
    simp [exponent?, hsign]

/-- Every text starts with digits and at most one point, and goes on in another way. -/
lemma exists_plain_append (cs : List Char) :
    ∃ us vs, cs = us ++ vs ∧ isPlainNumeral us = true ∧ ¬ StartsIn Char.isDigit vs ∧
      ('.' ∈ us ∨ vs.head? ≠ some '.') := by
  have hdigits (cs : List Char) : ∀ c ∈ cs.takeWhile Char.isDigit, c.isDigit = true :=
    fun c hc => List.mem_takeWhile_imp hc
  have hcs := cs.takeWhile_append_dropWhile (p := Char.isDigit)
  by_cases hpoint : (cs.dropWhile Char.isDigit).head? = some '.'
  · obtain ⟨ds, hds⟩ := List.head?_eq_some_iff.1 hpoint
    refine ⟨cs.takeWhile Char.isDigit ++ '.' :: ds.takeWhile Char.isDigit,
      ds.dropWhile Char.isDigit, ?_,
      isPlainNumeral_iff.2 (.inr ⟨_, _, rfl, hdigits cs, hdigits ds⟩),
      not_startsIn_dropWhile _ ds, .inl (by simp)⟩
    rw [List.append_assoc, List.cons_append, List.takeWhile_append_dropWhile, ← hds, hcs]
  · exact ⟨_, _, hcs.symm, isPlainNumeral_iff.2 (.inl (hdigits cs)), not_startsIn_dropWhile _ cs,
      .inr hpoint⟩

lemma decimal?_ne_none_iff (h : ∀ c ∈ cs, isWordChar c = true) :
    decimal? cs ≠ none ↔ (isPlainNumeral cs = true ∧ cs ≠ [] ∧ cs ≠ ['.']) ∨
      ∃ us c vs, cs = us ++ c :: vs ∧ isPlainNumeral us = true ∧ us ≠ [] ∧ us ≠ ['.'] ∧
        (c = 'e' ∨ c = 'E') ∧ vs ≠ [] ∧ ∀ d ∈ vs, d.isDigit = true := by
  constructor
  · intro hread
    obtain ⟨us, vs, rfl, hus, hdigit, hpoint⟩ := exists_plain_append cs
    obtain ⟨hne, hne', hexponent⟩ := (decimal?_append hus hdigit hpoint).1 hread
    rcases (exponent?_ne_none_iff (List.forall_mem_append.1 h).2).1 hexponent with
      rfl | ⟨c, ds, rfl, hc, hds, hdigits⟩
    · rw [List.append_nil]
      exact .inl ⟨hus, hne, hne'⟩
    · exact .inr ⟨us, c, ds, rfl, hus, hne, hne', hc, hds, hdigits⟩
  · rintro (⟨hcs, hne, hne'⟩ | ⟨us, c, vs, rfl, hus, hne, hne', hc, hvs, hdigits⟩)
    · simp [decimal?_eq_none_iff_of_plain hcs, hne, hne']
    · have hstop : ¬ StartsIn Char.isDigit (c :: vs) := by
        rw [startsIn_cons_iff]
        rcases hc with rfl | rfl <;> decide
      have hpoint : (c :: vs).head? ≠ some '.' := by
        rcases hc with rfl | rfl <;> simp
      refine (decimal?_append hus hstop (.inr hpoint)).2 ⟨hne, hne', ?_⟩
      exact (exponent?_ne_none_iff (List.forall_mem_append.1 h).2).2
        (.inr ⟨c, vs, rfl, hc, hvs, hdigits⟩)

end Numeral

/-- A word reads as a number if it is a numeral other than the point, with or without an exponent,
or a name of a number. -/
theorem ofText?_ne_none_iff_of_isWordText (hw : IsWordText w) :
    Number.ofText? w ≠ none ↔ (IsNumeralText w ∧ w ≠ ".") ∨ IsNameText w ∨ IsExponentText w := by
  obtain ⟨cs, rfl⟩ : ∃ cs, w = .ofList cs := ⟨w.toList, by simp⟩
  obtain ⟨hne, hword⟩ := isWordText_iff.1 hw
  have hplain : (isPlainNumeral cs = true ∧ cs ≠ [] ∧ cs ≠ ['.']) ↔
      isPlainNumeral cs = true ∧ String.ofList cs ≠ "." := by
    simp [hne, String.ofList_eq]
  have hexponent : IsExponentText (.ofList cs) ↔
      ∃ us c vs, cs = us ++ c :: vs ∧ isPlainNumeral us = true ∧ us ≠ [] ∧ us ≠ ['.'] ∧
        (c = 'e' ∨ c = 'E') ∧ vs ≠ [] ∧ ∀ d ∈ vs, d.isDigit = true := by
    simp only [IsExponentText, String.toList_ofList, isNumeralText_iff]
  rw [Number.ofText?, String.toList_ofList, Numeral.read?_ne_none_iff_of_word hword,
    Numeral.word?_ne_none_iff, Numeral.decimal?_ne_none_iff hword, hexponent, isNumeralText_iff,
    hplain]
  exact or_left_comm

end Calculator
