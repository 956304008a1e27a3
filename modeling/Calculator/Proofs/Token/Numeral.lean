import Calculator.Proofs.Token.Lexeme

/-!
# Number tokens as numerals

A number token consists of digits with at most one point, which is a numeral as soon as there is a
digit in it. So the point by itself is the one number token that spells no number.
-/

namespace Calculator

variable {c : Char} {cs us vs : List Char} {n : Nat}

/-! ### Digits and a point -/

lemma isPlainNumeral_iff : isPlainNumeral cs = true ↔
    (∀ c ∈ cs, c.isDigit = true) ∨
    ∃ us vs, cs = us ++ '.' :: vs ∧ (∀ c ∈ us, c.isDigit = true) ∧ ∀ c ∈ vs, c.isDigit = true := by
  have hplain : isPlainNumeral cs = true ↔
      (∀ c ∈ cs, c.isDigit = true ∨ c = '.') ∧ cs.count '.' ≤ 1 := by
    simp [isPlainNumeral]
  have hcount {ds : List Char} (h : ∀ c ∈ ds, c.isDigit = true) : ds.count '.' = 0 :=
    List.count_eq_zero.2 fun hmem => absurd (h '.' hmem) (by decide)
  rw [hplain]
  constructor
  · rintro ⟨hall, hle⟩
    have hdigit {ds : List Char} (hsub : ds ⊆ cs) (hpoint : '.' ∉ ds) :
        ∀ c ∈ ds, c.isDigit = true := by
      intro c hc
      refine (hall c (hsub hc)).resolve_right ?_
      rintro rfl
      exact hpoint hc
    by_cases hmem : '.' ∈ cs
    · -- there is no other point on either side of the first one
      right
      obtain ⟨us, vs, rfl⟩ := List.append_of_mem hmem
      rw [List.count_append, List.count_cons_self] at hle
      have hus : '.' ∉ us := List.count_eq_zero.1 (by omega)
      have hvs : '.' ∉ vs := List.count_eq_zero.1 (by omega)
      exact ⟨us, vs, rfl, hdigit (by simp) hus, hdigit (by simp) hvs⟩
    · left
      exact hdigit (List.Subset.refl cs) hmem
  · rintro (hdigits | ⟨us, vs, rfl, hus, hvs⟩)
    · exact ⟨fun c hc => .inl (hdigits c hc), by simp [hcount hdigits]⟩
    · refine ⟨List.forall_mem_append.2 ⟨fun c hc => .inl (hus c hc), ?_⟩, ?_⟩
      · exact List.forall_mem_cons.2 ⟨.inr rfl, fun c hc => .inl (hvs c hc)⟩
      · simp [hcount hus, hcount hvs]

lemma isDigit_or_point_of_plain (h : isPlainNumeral cs = true) (hc : c ∈ cs) :
    c.isDigit = true ∨ c = '.' := by
  simp only [isPlainNumeral, Bool.and_eq_true, List.all_eq_true, Bool.or_eq_true, beq_iff_eq] at h
  exact h.1 c hc

lemma ne_of_isDigit_or_point {d : Char} (h : c.isDigit = true ∨ c = '.')
    (hd : ¬ (d.isDigit = true ∨ d = '.')) : c ≠ d := by
  rintro rfl
  exact hd h

namespace Numeral

lemma not_startsIn_point (cs : List Char) : ¬ StartsIn Char.isDigit ('.' :: cs) := by
  rw [startsIn_cons_iff]
  decide

/-- What stands behind digits and at most one point is read as an exponent. -/
lemma decimal?_append (hus : isPlainNumeral us = true) (hdigit : ¬ StartsIn Char.isDigit vs)
    (hpoint : '.' ∈ us ∨ vs.head? ≠ some '.') :
    decimal? (us ++ vs) ≠ none ↔ us ≠ [] ∧ us ≠ ['.'] ∧ exponent? vs ≠ none := by
  rcases isPlainNumeral_iff.1 hus with hdigits | ⟨whole, places, rfl, hwhole, hplaces⟩
  · have hnone : '.' ∉ us := fun hmem => absurd (hdigits '.' hmem) (by decide)
    have hne : us ≠ ['.'] := by
      rintro rfl
      exact hnone (List.mem_singleton_self '.')
    have hfraction : fraction vs = ([], vs) := by
      fun_cases fraction vs with
      | case1 cs => simp [hnone] at hpoint
      | case2 => rfl
    obtain ⟨htake, hdrop⟩ := run_exact hdigits hdigit
    simp only [decimal?, htake, hdrop, hfraction, List.append_nil]
    split <;> simp_all
  · have hempty : whole ++ '.' :: places = ['.'] ↔ whole ++ places = [] := by
      cases whole <;> simp
    obtain ⟨htake, hdrop⟩ := run_exact hwhole (not_startsIn_point (places ++ vs))
    obtain ⟨hptake, hpdrop⟩ := run_exact hplaces hdigit
    simp only [decimal?, List.append_assoc, List.cons_append, htake, hdrop, fraction, hptake,
      hpdrop]
    split <;> simp_all

lemma decimal?_eq_none_iff_of_plain (h : isPlainNumeral cs = true) :
    decimal? cs = none ↔ cs = [] ∨ cs = ['.'] := by
  have hdigit : ¬ StartsIn Char.isDigit [] := by simp [StartsIn]
  have happend := decimal?_append h hdigit (.inr (by simp))
  rw [List.append_nil] at happend
  rw [← not_iff_not]
  simpa [exponent?] using happend

lemma word?_cons (h : c.isDigit = true ∨ c = '.') : word? (c :: cs) = none := by
  have hlower : c.toLower = c := by
    rcases h with h | rfl
    · have hle : c.val ≤ '9'.val := by
        simp only [Char.isDigit, Bool.and_eq_true, decide_eq_true_eq] at h
        exact h.2
      unfold Char.toLower
      rw [dif_neg]
      rintro ⟨hge, -⟩
      exact absurd (UInt32.le_trans hge hle) (by decide)
    · rfl
  have hi : c ≠ 'i' := ne_of_isDigit_or_point h (by decide)
  have hn : c ≠ 'n' := ne_of_isDigit_or_point h (by decide)
  simp [word?, hlower, hi, hn]

lemma sign_cons (h : c.isDigit = true ∨ c = '.') : sign (c :: cs) = (false, c :: cs) := by
  have hminus : c ≠ '-' := ne_of_isDigit_or_point h (by decide)
  have hplus : c ≠ '+' := ne_of_isDigit_or_point h (by decide)
  unfold sign
  split <;> simp_all

/-- Of the plain numerals the point alone is not read. -/
theorem read?_eq_none_iff_of_plain (h : isPlainNumeral cs = true) (hne : cs ≠ []) :
    read? cs = none ↔ cs = ['.'] := by
  obtain ⟨c, ds, rfl⟩ := List.exists_cons_of_ne_nil hne
  have hc := isDigit_or_point_of_plain h List.mem_cons_self
  have hread : read? (c :: ds) = none ↔ decimal? (c :: ds) = none := by
    simp [read?, sign_cons hc, unsigned?, word?_cons hc]
  rw [hread, decimal?_eq_none_iff_of_plain h]
  simp

end Numeral

/-! ### Number tokens -/

/-- The point alone is the one number token of a text that spells no number. -/
theorem value?_eq_none_iff {t : Token} (ht : t ∈ Cursor.lexemes ⟨cs, n⟩) (hk : t.kind = .number) :
    t.value? = none ↔ t.literal = "." := by
  rcases Cursor.lexeme_cases ht with ⟨c, hc, -⟩ | ⟨run, hne, -, hkind, hlit⟩
  · rw [hk] at hc
    revert hc
    fun_cases Token.Kind.ofSymbol? c <;> simp
  · have hplain : isPlainNumeral run = true := by
      by_contra hplain
      simp [hk, Token.Kind.ofWord, hplain] at hkind
    have hread : t.value? = Numeral.read? run := by
      simp [Token.value?, hk, Number.ofText?, hlit]
    rw [hread, Numeral.read?_eq_none_iff_of_plain hplain hne, hlit]
    constructor
    · rintro rfl
      rfl
    · intro heq
      exact String.ofList_injective heq

end Calculator
