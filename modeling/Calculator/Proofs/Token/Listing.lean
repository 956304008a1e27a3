import Calculator.Token.Stream
import Mathlib.Data.List.TakeWhile
import Mathlib.Data.String.Basic
import Mathlib.Tactic.Lemma

/-!
# The tokens of a text in a list

What a cursor still has to read is listed at once, the end token last. The list is computed from
the first character on: a symbol is a token by itself, and a run of blanks or of word characters
is one token. Statements on lists of tokens go by induction on a text cut up in this way,
`Cursor.scan_ind`.
-/

namespace Calculator

variable {c : Char} {cs : List Char} {n : Nat}

/-! ### Classes of characters -/

lemma not_isSymbol_of_isBlank (h : isBlank c = true) : isSymbol c = false := by
  simp only [isBlank, Bool.decide_or, Bool.or_eq_true, decide_eq_true_eq] at h
  rcases h with rfl | rfl | rfl <;> rfl

lemma ofSymbol?_of_not_isSymbol (h : isSymbol c = false) : Token.Kind.ofSymbol? c = none := by
  simpa [isSymbol] using h

lemma isWordChar_eq_true_iff : isWordChar c = true ↔ isBlank c = false ∧ isSymbol c = false := by
  simp [isWordChar]

lemma char_cases (c : Char) :
    (∃ kind, Token.Kind.ofSymbol? c = some kind) ∨ isBlank c = true ∨ isWordChar c = true := by
  cases hs : Token.Kind.ofSymbol? c with
  | some kind => exact .inl ⟨kind, rfl⟩
  | none =>
    right
    cases hb : isBlank c with
    | true => exact .inl rfl
    | false => exact .inr (by simp [isWordChar, isSymbol, hs, hb])

/-! ### Sizes of texts -/

lemma add_utf8Len_cons (n : Nat) (c : Char) (cs : List Char) :
    n + String.utf8Len (c :: cs) = n + c.utf8Size + String.utf8Len cs := by
  rw [String.utf8Len_cons, Nat.add_right_comm, Nat.add_assoc]

lemma lt_add_utf8Len_cons (n : Nat) (c : Char) (cs : List Char) :
    n < n + String.utf8Len (c :: cs) := by
  rw [add_utf8Len_cons]
  exact Nat.lt_add_right _ (Nat.lt_add_of_pos_right c.utf8Size_pos)

lemma utf8Len_run (p : Char → Bool) (c : Char) (cs : List Char) :
    String.utf8Len (c :: cs.takeWhile p) + String.utf8Len (cs.dropWhile p) =
      String.utf8Len (c :: cs) := by
  rw [← String.utf8Len_append, List.cons_append, List.takeWhile_append_dropWhile]

namespace Cursor

/-- A run is the longest one there is, and the cursor ends up right behind it. -/
theorem readWhile_eq (p : Char → Bool) (k : Cursor) :
    k.readWhile p =
      (k.rest.takeWhile p,
        ⟨k.rest.dropWhile p, k.offset + String.utf8Len (k.rest.takeWhile p)⟩) := by
  fun_induction readWhile p k with
  | case1 k h =>
    rw [read?_eq_none_iff] at h
    rcases k with ⟨_, _⟩
    simp_all
  | case2 k c k' h hp hlt run k'' hrun ih =>
    obtain ⟨h₁, h₂⟩ := read?_eq_some_iff.1 h
    rw [hrun] at ih
    obtain ⟨rfl, rfl⟩ := Prod.mk.inj ih
    simp [h₁, h₂, hp, Nat.add_assoc, Nat.add_comm]
  | case3 k c k' h hp =>
    rw [giveBack_of_read? h]
    obtain ⟨h₁, h₂⟩ := read?_eq_some_iff.1 h
    rcases k with ⟨_, _⟩
    simp_all

/-! ### The list -/

/-- All tokens from a cursor on, the end token being the last. -/
def tokens (k : Cursor) : List Token :=
  if h : k.nextToken.1.kind = .eof then [k.nextToken.1]
  else
    have := length_nextToken_lt h
    k.nextToken.1 :: k.nextToken.2.tokens
termination_by k.rest.length

lemma tokens_of_eof {k : Cursor} (h : k.nextToken.1.kind = .eof) : k.tokens = [k.nextToken.1] := by
  rw [tokens, dif_pos h]

lemma tokens_of_not_eof {k : Cursor} (h : k.nextToken.1.kind ≠ .eof) :
    k.tokens = k.nextToken.1 :: k.nextToken.2.tokens := by
  rw [tokens, dif_neg h]

@[simp] lemma tokens_nil (n : Nat) : tokens ⟨[], n⟩ = [⟨.eof, "", n⟩] := by
  have h : nextToken ⟨[], n⟩ = (⟨.eof, "", n⟩, ⟨[], n⟩) := nextToken_of_rest_eq_nil rfl
  rw [tokens_of_eof (by rw [h]), h]

lemma tokens_cons : tokens ⟨c :: cs, n⟩ =
    (nextToken ⟨c :: cs, n⟩).1 :: (nextToken ⟨c :: cs, n⟩).2.tokens := by
  apply tokens_of_not_eof
  rw [ne_eq, kind_nextToken_eq_eof_iff]
  exact List.cons_ne_nil c cs

lemma tokens_symbol {kind : Token.Kind} (h : Token.Kind.ofSymbol? c = some kind) :
    tokens ⟨c :: cs, n⟩ = ⟨kind, .singleton c, n⟩ :: tokens ⟨cs, n + c.utf8Size⟩ := by
  rw [tokens_cons]
  simp [nextToken, h]

lemma tokens_blank (h : isBlank c = true) :
    tokens ⟨c :: cs, n⟩ = ⟨.whitespace, "", n⟩ ::
      tokens ⟨cs.dropWhile isBlank, n + String.utf8Len (c :: cs.takeWhile isBlank)⟩ := by
  rw [tokens_cons]
  simp [nextToken, ofSymbol?_of_not_isSymbol (not_isSymbol_of_isBlank h), h, readWhile_eq,
    Nat.add_assoc, Nat.add_comm]

lemma tokens_word (h : isWordChar c = true) :
    tokens ⟨c :: cs, n⟩ =
      ⟨.ofWord (c :: cs.takeWhile isWordChar), .ofList (c :: cs.takeWhile isWordChar), n⟩ ::
      tokens ⟨cs.dropWhile isWordChar, n + String.utf8Len (c :: cs.takeWhile isWordChar)⟩ := by
  obtain ⟨hb, hs⟩ := isWordChar_eq_true_iff.1 h
  rw [tokens_cons]
  simp [nextToken, ofSymbol?_of_not_isSymbol hs, hb, readWhile_eq, Nat.add_assoc, Nat.add_comm]

/-! ### Induction on a text -/

/-- Induction on a text as it is cut into tokens. A run of blanks may be taken off at once or one
blank after the other. -/
@[elab_as_elim]
theorem scan_ind {P : List Char → Prop} (nil : P [])
    (symbol : ∀ c cs kind, Token.Kind.ofSymbol? c = some kind → P cs → P (c :: cs))
    (blank : ∀ c cs, isBlank c = true → P cs → P (cs.dropWhile isBlank) → P (c :: cs))
    (word : ∀ c cs, isWordChar c = true → P (cs.dropWhile isWordChar) → P (c :: cs))
    (cs : List Char) : P cs := by
  have aux : ∀ m, ∀ cs : List Char, cs.length ≤ m → P cs := by
    intro m
    induction m with
    | zero =>
      intro cs h
      rw [List.eq_nil_of_length_eq_zero (Nat.le_zero.mp h)]
      exact nil
    | succ m ih =>
      intro cs h
      cases cs with
      | nil => exact nil
      | cons c cs =>
        have hcs : cs.length ≤ m := Nat.le_of_succ_le_succ h
        have hdrop (p : Char → Bool) : (cs.dropWhile p).length ≤ m :=
          (List.dropWhile_suffix p).length_le.trans hcs
        rcases char_cases c with ⟨kind, hs⟩ | hb | hw
        · exact symbol c cs kind hs (ih cs hcs)
        · exact blank c cs hb (ih cs hcs) (ih _ (hdrop isBlank))
        · exact word c cs hw (ih _ (hdrop isWordChar))
  exact aux cs.length cs le_rfl

/-- The end token stands behind the whole text, and nowhere else. -/
theorem tokens_eq_append (cs : List Char) (n : Nat) :
    ∃ ts, tokens ⟨cs, n⟩ = ts ++ [⟨.eof, "", n + String.utf8Len cs⟩] ∧ ∀ t ∈ ts, t.kind ≠ .eof := by
  induction cs using scan_ind generalizing n with
  | nil => exact ⟨[], by simp⟩
  | symbol c cs kind h ih =>
    obtain ⟨ts, hts, hne⟩ := ih (n + c.utf8Size)
    refine ⟨⟨kind, .singleton c, n⟩ :: ts, ?_, ?_⟩
    · rw [tokens_symbol h, hts, add_utf8Len_cons, List.cons_append]
    · have hk : kind ≠ .eof := by
        rintro rfl
        exact kind_ofSymbol?_ne_eof h
      simpa [hk] using hne
  | blank c cs h _ ih =>
    obtain ⟨ts, hts, hne⟩ := ih (n + String.utf8Len (c :: cs.takeWhile isBlank))
    refine ⟨⟨.whitespace, "", n⟩ :: ts, ?_, by simpa using hne⟩
    rw [tokens_blank h, hts, Nat.add_assoc, utf8Len_run, List.cons_append]
  | word c cs h ih =>
    obtain ⟨ts, hts, hne⟩ := ih (n + String.utf8Len (c :: cs.takeWhile isWordChar))
    refine ⟨⟨.ofWord (c :: cs.takeWhile isWordChar), .ofList (c :: cs.takeWhile isWordChar), n⟩ ::
      ts, ?_, by simpa [kind_ofWord_ne_eof] using hne⟩
    rw [tokens_word h, hts, Nat.add_assoc, utf8Len_run, List.cons_append]

end Cursor

/-! ### Streams -/

lemma Token.Stream.drain_of_finished {s : Stream} (h : s.finished = true) : s.drain = ([], s) := by
  have hnext : s.next? = (none, s) := by simp [Stream.next?, h]
  rw [Stream.drain]
  split
  · next s' hs' => simp_all
  · next t s' hs' => simp_all

lemma Token.Stream.drain_of_next? {s s' : Stream} {t : Token} (h : s.next? = (some t, s')) :
    s.drain.1 = t :: s'.drain.1 := by
  rw [Stream.drain]
  split
  · next hs' => simp_all
  · next hs' =>
    obtain ⟨rfl, rfl⟩ : _ ∧ _ := by simpa [h] using hs'
    rfl

theorem Token.Stream.drain_eq_tokens (k : Cursor) : (Stream.drain ⟨k, false⟩).1 = k.tokens := by
  fun_induction Cursor.tokens k with
  | case1 k h =>
    have hnext : Stream.next? ⟨k, false⟩ = (some k.nextToken.1, ⟨k.nextToken.2, true⟩) := by
      simp [Stream.next?, h]
    rw [drain_of_next? hnext, drain_of_finished rfl]
  | case2 k h _ ih =>
    have hnext : Stream.next? ⟨k, false⟩ = (some k.nextToken.1, ⟨k.nextToken.2, false⟩) := by
      simp [Stream.next?, h]
    rw [drain_of_next? hnext, ih]

theorem Token.tokens_eq (s : String) : Token.tokens s = (Cursor.ofText s).tokens :=
  Stream.drain_eq_tokens (Cursor.ofText s)

end Calculator
