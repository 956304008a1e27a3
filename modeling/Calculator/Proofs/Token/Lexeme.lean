import Calculator.Proofs.Token.Listing

/-!
# Lexemes

The lexemes of a text are its tokens apart from white space and the end token. Blanks do not count
among them, so that the lexemes of two texts behind one another are those of the first followed by
those of the second, unless a word goes on from the first into the second.
-/

namespace Calculator

variable {c : Char} {cs a b w : List Char} {n : Nat}

/-! ### Runs across a seam -/

/-- The last character of a text is of a class. -/
def EndsIn (p : Char → Bool) (cs : List Char) : Prop :=
  ∃ c ∈ cs.getLast?, p c = true

/-- The first character of a text is of a class. -/
def StartsIn (p : Char → Bool) (cs : List Char) : Prop :=
  ∃ c ∈ cs.head?, p c = true

/-- A run of characters of one class goes on from one text into the next. -/
def Joined (p : Char → Bool) (a b : List Char) : Prop :=
  EndsIn p a ∧ StartsIn p b

variable {p : Char → Bool}

lemma not_endsIn_of_forall (h : ∀ c ∈ w, p c = false) : ¬ EndsIn p w := by
  rintro ⟨c, hc, hp⟩
  exact Bool.false_ne_true ((h c (List.mem_of_getLast? hc)).symm.trans hp)

lemma endsIn_append_iff (hne : a ≠ []) : EndsIn p (w ++ a) ↔ EndsIn p a := by
  rw [EndsIn, List.getLast?_append, Option.or_of_isSome (by simpa using hne)]
  rfl

lemma EndsIn.of_suffix {a' : List Char} (ha : a' <:+ a) (h : EndsIn p a') : EndsIn p a := by
  obtain ⟨w, rfl⟩ := ha
  have hne : a' ≠ [] := by
    rintro rfl
    exact not_endsIn_of_forall (by simp) h
  exact (endsIn_append_iff hne).2 h

lemma EndsIn.of_append (hw : ∀ c ∈ w, p c = false) (h : EndsIn p (w ++ a)) : EndsIn p a := by
  by_cases hne : a = []
  · rw [hne, List.append_nil] at h
    exact absurd h (not_endsIn_of_forall hw)
  · exact (endsIn_append_iff hne).1 h

lemma startsIn_cons_iff : StartsIn p (c :: b) ↔ p c = true := by
  simp [StartsIn]

lemma StartsIn.exists_cons (h : StartsIn p b) : ∃ d ds, b = d :: ds ∧ p d = true := by
  cases b with
  | nil =>
    obtain ⟨d, hd, -⟩ := h
    simp at hd
  | cons d ds => exact ⟨d, ds, rfl, startsIn_cons_iff.1 h⟩

lemma Joined.of_suffix {a' : List Char} (ha : a' <:+ a) (h : Joined p a' b) : Joined p a b :=
  ⟨h.1.of_suffix ha, h.2⟩

lemma Joined.cons (h : Joined p a b) : Joined p (c :: a) b :=
  h.of_suffix (List.suffix_cons c a)

lemma not_joined_cons (h : p c = false) (a b : List Char) : ¬ Joined p a (c :: b) := by
  rintro ⟨-, hstart⟩
  exact Bool.false_ne_true (h.symm.trans (startsIn_cons_iff.1 hstart))

/-- A run of a text is the same when more text follows that does not continue it. -/
lemma run_append (hc : p c = true) (h : ¬ Joined p (c :: cs) b) :
    (cs ++ b).takeWhile p = cs.takeWhile p ∧ (cs ++ b).dropWhile p = cs.dropWhile p ++ b := by
  induction cs generalizing c with
  | nil =>
    cases b with
    | nil => simp
    | cons d ds =>
      have hd : p d = false := by
        by_contra hd
        exact h ⟨⟨c, rfl, hc⟩, startsIn_cons_iff.2 (by simpa using hd)⟩
      simp [hd]
  | cons d ds ih =>
    cases hd : p d with
    | true =>
      obtain ⟨htake, hdrop⟩ := ih hd fun hj => h hj.cons
      simp [hd, htake, hdrop]
    | false => simp [hd]

lemma run_append_of_ne_nil (h : cs.dropWhile p ≠ []) :
    (cs ++ b).takeWhile p = cs.takeWhile p ∧ (cs ++ b).dropWhile p = cs.dropWhile p ++ b := by
  induction cs with
  | nil => exact absurd rfl h
  | cons d ds ih =>
    cases hd : p d with
    | true =>
      obtain ⟨htake, hdrop⟩ := ih (by simpa [hd] using h)
      simp [hd, htake, hdrop]
    | false => simp [hd]

/-- A run ends where no character of its class follows. -/
lemma run_exact (hw : ∀ c ∈ w, p c = true) (hb : ¬ StartsIn p b) :
    (w ++ b).takeWhile p = w ∧ (w ++ b).dropWhile p = b := by
  rw [List.takeWhile_append_of_pos hw, List.dropWhile_append_of_pos hw]
  cases b with
  | nil => simp
  | cons c b =>
    have hc : p c = false := by simpa using mt startsIn_cons_iff.2 hb
    simp [hc]

lemma not_isWordChar_of_isBlank (h : isBlank c = true) : isWordChar c = false := by
  simp [isWordChar, h]

lemma not_isWordChar_of_ofSymbol? {kind : Token.Kind} (h : Token.Kind.ofSymbol? c = some kind) :
    isWordChar c = false := by
  simp [isWordChar, isSymbol, h]

lemma not_isBlank_of_ofSymbol? {kind : Token.Kind} (h : Token.Kind.ofSymbol? c = some kind) :
    isBlank c = false := by
  by_contra hb
  have := not_isSymbol_of_isBlank (by simpa using hb)
  simp [isSymbol, h] at this

/-- The same token further on in a text. -/
def Token.shift (m : Nat) (t : Token) : Token :=
  { t with offset := t.offset + m }

namespace Cursor

/-! ### Listing the lexemes -/

/-- The tokens from a cursor on that are neither white space nor the end of the text. -/
def lexemes (k : Cursor) : List Token :=
  k.tokens.filter fun t => t.kind ≠ .whitespace ∧ t.kind ≠ .eof

@[simp] lemma lexemes_nil (n : Nat) : lexemes ⟨[], n⟩ = [] := by
  simp [lexemes]

lemma kind_ofSymbol?_ne_whitespace : Token.Kind.ofSymbol? c ≠ some .whitespace := by
  fun_cases Token.Kind.ofSymbol? c <;> simp

lemma kind_ofWord_ne_whitespace (cs : List Char) : Token.Kind.ofWord cs ≠ .whitespace := by
  unfold Token.Kind.ofWord
  split <;> simp

lemma lexemes_symbol {kind : Token.Kind} (h : Token.Kind.ofSymbol? c = some kind) :
    lexemes ⟨c :: cs, n⟩ = ⟨kind, .singleton c, n⟩ :: lexemes ⟨cs, n + c.utf8Size⟩ := by
  have hw : kind ≠ .whitespace := by
    rintro rfl
    exact kind_ofSymbol?_ne_whitespace h
  have he : kind ≠ .eof := by
    rintro rfl
    exact kind_ofSymbol?_ne_eof h
  simp [lexemes, tokens_symbol h, hw, he]

lemma lexemes_blank (h : isBlank c = true) :
    lexemes ⟨c :: cs, n⟩ = lexemes ⟨cs, n + c.utf8Size⟩ := by
  cases cs with
  | nil => simp [lexemes, tokens_blank h]
  | cons d ds =>
    cases hd : isBlank d with
    | true => simp [lexemes, tokens_blank h, tokens_blank hd, hd, Nat.add_assoc, Nat.add_comm]
    | false => simp [lexemes, tokens_blank h, hd]

lemma lexemes_word (h : isWordChar c = true) :
    lexemes ⟨c :: cs, n⟩ =
      ⟨.ofWord (c :: cs.takeWhile isWordChar), .ofList (c :: cs.takeWhile isWordChar), n⟩ ::
      lexemes ⟨cs.dropWhile isWordChar, n + String.utf8Len (c :: cs.takeWhile isWordChar)⟩ := by
  simp [lexemes, tokens_word h, kind_ofWord_ne_whitespace, kind_ofWord_ne_eof]

/-- Without its white space a list of tokens consists of the lexemes and the end token. -/
theorem filter_tokens (cs : List Char) (n : Nat) :
    (tokens ⟨cs, n⟩).filter (fun t => t.kind ≠ .whitespace) =
      lexemes ⟨cs, n⟩ ++ [⟨.eof, "", n + String.utf8Len cs⟩] := by
  obtain ⟨ts, hts, hne⟩ := tokens_eq_append cs n
  have hfilter : ts.filter (fun t => t.kind ≠ .whitespace) =
      ts.filter (fun t => t.kind ≠ .whitespace ∧ t.kind ≠ .eof) :=
    List.filter_congr fun t ht => by simp [hne t ht]
  rw [lexemes, hts, List.filter_append, List.filter_append, hfilter]
  simp

/-! ### Lexemes of composed texts -/

/-- The lexemes of two texts behind one another, no word of the first going on into the second. -/
theorem lexemes_append (h : ¬ Joined isWordChar a b) (n : Nat) :
    lexemes ⟨a ++ b, n⟩ = lexemes ⟨a, n⟩ ++ lexemes ⟨b, n + String.utf8Len a⟩ := by
  induction a using scan_ind generalizing n with
  | nil => simp
  | symbol c cs kind hc ih =>
    rw [List.cons_append, lexemes_symbol hc, lexemes_symbol hc, ih (fun hj => h hj.cons),
      List.cons_append, add_utf8Len_cons]
  | blank c cs hc ih _ =>
    rw [List.cons_append, lexemes_blank hc, lexemes_blank hc, ih (fun hj => h hj.cons),
      add_utf8Len_cons]
  | word c cs hc ih =>
    have hsuffix : cs.dropWhile isWordChar <:+ c :: cs :=
      (List.dropWhile_suffix isWordChar).trans (List.suffix_cons c cs)
    obtain ⟨htake, hdrop⟩ := run_append hc h
    rw [List.cons_append, lexemes_word hc, lexemes_word hc, htake, hdrop,
      ih (fun hj => h (hj.of_suffix hsuffix)), List.cons_append, Nat.add_assoc, utf8Len_run]

lemma lexemes_append_symbol {kind : Token.Kind} (h : Token.Kind.ofSymbol? c = some kind)
    (a b : List Char) (n : Nat) :
    lexemes ⟨a ++ c :: b, n⟩ = lexemes ⟨a, n⟩ ++ ⟨kind, .singleton c, n + String.utf8Len a⟩ ::
      lexemes ⟨b, n + String.utf8Len a + c.utf8Size⟩ := by
  rw [lexemes_append (not_joined_cons (not_isWordChar_of_ofSymbol? h) a b), lexemes_symbol h]

lemma lexemes_of_blank (hw : ∀ c ∈ w, isBlank c = true) (n : Nat) : lexemes ⟨w, n⟩ = [] := by
  induction w generalizing n with
  | nil => exact lexemes_nil n
  | cons c cs ih =>
    rw [lexemes_blank (hw c List.mem_cons_self)]
    apply ih
    intro d hd
    exact hw d (List.mem_cons_of_mem c hd)

/-- The tokens of a text that starts further on are the same ones, further on. -/
theorem tokens_add (cs : List Char) (n m : Nat) :
    tokens ⟨cs, n + m⟩ = (tokens ⟨cs, n⟩).map (Token.shift m) := by
  induction cs using scan_ind generalizing n with
  | nil => simp [Token.shift]
  | symbol c cs kind h ih =>
    rw [tokens_symbol h, tokens_symbol h, Nat.add_right_comm, ih]
    rfl
  | blank c cs h _ ih =>
    rw [tokens_blank h, tokens_blank h, Nat.add_right_comm, ih]
    rfl
  | word c cs h ih =>
    rw [tokens_word h, tokens_word h, Nat.add_right_comm, ih]
    rfl

theorem lexemes_add (cs : List Char) (n m : Nat) :
    lexemes ⟨cs, n + m⟩ = (lexemes ⟨cs, n⟩).map (Token.shift m) := by
  rw [lexemes, lexemes, tokens_add, List.filter_map]
  rfl

/-! ### What a lexeme is -/

theorem lexeme_cases {t : Token} (ht : t ∈ lexemes ⟨cs, n⟩) :
    (∃ c, Token.Kind.ofSymbol? c = some t.kind ∧ t.literal = .singleton c) ∨
    ∃ run, run ≠ [] ∧ (∀ c ∈ run, isWordChar c = true) ∧ t.kind = .ofWord run ∧
      t.literal = .ofList run := by
  induction cs using scan_ind generalizing n with
  | nil => simp at ht
  | symbol c cs kind h ih =>
    rw [lexemes_symbol h, List.mem_cons] at ht
    rcases ht with rfl | ht
    · exact .inl ⟨c, h, rfl⟩
    · exact ih ht
  | blank c cs h ih _ =>
    rw [lexemes_blank h] at ht
    exact ih ht
  | word c cs h ih =>
    rw [lexemes_word h, List.mem_cons] at ht
    rcases ht with rfl | ht
    · refine .inr ⟨c :: cs.takeWhile isWordChar, List.cons_ne_nil _ _, ?_, rfl, rfl⟩
      simpa [h] using fun d hd => List.mem_takeWhile_imp hd
    · exact ih ht

/-- A lexeme lies within the text it was read from. -/
theorem le_of_mem_lexemes {t : Token} (ht : t ∈ lexemes ⟨cs, n⟩) :
    n ≤ t.offset ∧ t.offset + t.literal.utf8ByteSize ≤ n + String.utf8Len cs := by
  induction cs using scan_ind generalizing n with
  | nil => simp at ht
  | symbol c cs kind h ih =>
    rw [lexemes_symbol h, List.mem_cons] at ht
    rcases ht with rfl | ht
    · simp [← String.utf8Len_toList]
    · have := ih ht
      rw [String.utf8Len_cons]
      omega
  | blank c cs h ih _ =>
    rw [lexemes_blank h] at ht
    have := ih ht
    rw [String.utf8Len_cons]
    omega
  | word c cs h ih =>
    have hsplit := utf8Len_run isWordChar c cs
    rw [lexemes_word h, List.mem_cons] at ht
    rcases ht with rfl | ht
    · rw [← String.utf8Len_toList, String.toList_ofList, ← hsplit]
      exact ⟨le_rfl, Nat.add_le_add_left (Nat.le_add_right _ _) n⟩
    · have := ih ht
      omega

end Cursor

/-! ### Visible tokens -/

/-- The tokens of a text without its white space, the end token being the last. -/
def Token.visible (s : String) : List Token :=
  (Token.tokens s).filter fun t => t.kind ≠ .whitespace

theorem Token.visible_eq (s : String) :
    Token.visible s = (Cursor.ofText s).lexemes ++ [⟨.eof, "", s.utf8ByteSize⟩] := by
  rw [Token.visible, Token.tokens_eq, Cursor.ofText, Cursor.filter_tokens, Nat.zero_add,
    ← String.utf8Len_toList]

lemma Token.mem_visible_iff {s : String} {t : Token} :
    t ∈ Token.visible s ↔
      t ∈ (Cursor.ofText s).lexemes ∨ t = ⟨.eof, "", s.utf8ByteSize⟩ := by
  rw [Token.visible_eq, List.mem_append, List.mem_singleton]

lemma Token.literal_of_rightParen {s : String} {t : Token} (ht : t ∈ Token.visible s)
    (hk : t.kind = .rightParen) : t.literal = ")" := by
  rcases Token.mem_visible_iff.1 ht with hmem | rfl
  · rcases Cursor.lexeme_cases hmem with ⟨c, hc, hlit⟩ | ⟨run, -, -, hkind, -⟩
    · rw [hk] at hc
      have : c = ')' := by
        revert hc
        fun_cases Token.Kind.ofSymbol? c <;> simp
      rw [hlit, this]
      rfl
    · rw [hk, Token.Kind.ofWord] at hkind
      split at hkind <;> cases hkind
  · cases hk

lemma Token.literal_of_eof {s : String} {t : Token} (ht : t ∈ Token.visible s)
    (hk : t.kind = .eof) : t.literal = "" := by
  rcases Token.mem_visible_iff.1 ht with hmem | rfl
  · simp [Cursor.lexemes, hk] at hmem
  · rfl

end Calculator
