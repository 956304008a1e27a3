import Calculator.Proofs.Parsing.Counter

/-!
# Rejected texts

A text is rejected at one of its visible tokens: the tokens before it are taken in, and it is not.
What stands behind it does not matter.
-/

namespace Calculator.Parsing

variable {s : String} {t u : Token} {ts us vs : List Token} {fault : SyntaxError.Fault}

namespace Stack

/-- Tokens are rejected at the first of them that the stack does not take in. -/
theorem feedAll_eq_reject_iff {st : Stack} :
    st.feedAll ts = .reject fault t ↔
      ∃ us vs st', ts = us ++ t :: vs ∧ st.feedAll us = .more st' ∧
        st'.feed t = .reject fault t := by
  constructor
  · intro h
    induction ts generalizing st with
    | nil => cases h
    | cons u ts ih =>
      cases hu : st.feed u with
      | more st' =>
        rw [feedAll_of_more hu] at h
        obtain ⟨us, vs, st'', rfl, hus, ht⟩ := ih h
        exact ⟨u :: us, vs, st'', rfl, by rw [feedAll_of_more hu, hus], ht⟩
      | accept e =>
        rw [feedAll_of_accept hu] at h
        cases h
      | reject fault' u' =>
        obtain rfl := of_feed_eq_reject hu
        rw [feedAll_of_reject hu] at h
        cases h
        exact ⟨[], ts, st, rfl, rfl, hu⟩
  · rintro ⟨us, vs, st', rfl, hus, ht⟩
    rw [feedAll_append_of_more hus, feedAll_of_reject ht]

/-- At its end a text is only ever rejected for what is missing. -/
lemma fault_of_eof {st : Stack} (h : st.feed t = .reject fault u) (ht : t.kind = .eof) :
    ∃ x, fault = .unexpected x := by
  rcases st with ⟨frames, _ | left⟩
  · simp only [feed, feedValue, ht] at h
    cases h
    exact ⟨_, rfl⟩
  · simp only [feed, feedOperator, ht] at h
    split at h
    · cases h
    · cases h
      exact ⟨_, rfl⟩

end Stack

/-- A text is rejected exactly if one of its visible tokens is, after those before it. -/
theorem parse_eq_error_iff {e : SyntaxError} :
    (parse s).result = .error e ↔ e.source = s ∧
      ∃ us vs st, Token.visible s = us ++ e.token :: vs ∧ Stack.empty.feedAll us = .more st ∧
        st.feed e.token = .reject e.fault e.token := by
  have hverdict := verdict_visible s
  obtain ⟨fault, t, source⟩ := e
  rw [← Stack.feedAll_eq_reject_iff]
  constructor
  · intro h
    rw [h] at hverdict
    generalize Stack.empty.feedAll (Token.visible s) = v at hverdict
    cases v with
    | more st => cases hverdict
    | accept e => cases hverdict
    | reject fault' t' =>
      cases hverdict
      exact ⟨rfl, rfl⟩
  · rintro ⟨rfl, h⟩
    rw [h] at hverdict
    exact (Option.some.inj hverdict).symm

end Calculator.Parsing
