import Calculator.Proofs.Parsing.Rejection
import Calculator.Proofs.Token.Partition

/-!
# Viable prefixes

A text is rejected at the first token that cannot be put right by what follows. Up to that token it
is the start of an expression: a value, where one is wanted, and the parentheses that are still to
be closed complete it (`Counter.completion`). With that token it is not, and it is rejected in the
same way whatever stands behind, as long as the token stays the same.
-/

namespace Calculator

variable {s p q : String} {cs a b : List Char} {n : Nat} {t : Token} {ts us vs : List Token}

/-! ### Completions -/

namespace Parsing.Counter

/-- Blanks apart, a value if one is wanted, and a closing parenthesis for each open one. -/
def completion (c : Counter) : String :=
  match c.phase with
  | .value => .ofList (' ' :: '0' :: List.replicate c.depth ')')
  | .operator => .ofList (' ' :: List.replicate c.depth ')')

lemma run_closing {d : Nat} (hts : ts.map Token.kind = List.replicate d .rightParen)
    (ht : t.kind = .eof) : Counter.run ⟨.operator, d⟩ (ts ++ [t]) = .fine := by
  induction d generalizing ts with
  | zero =>
    obtain rfl : ts = [] := by simpa using hts
    simp [run, next, ht]
  | succ d ih =>
    cases ts with
    | nil => cases hts
    | cons u ts =>
      obtain ⟨hu, hts⟩ := List.cons.inj hts
      have hnext : next ⟨.operator, d + 1⟩ u = .more ⟨.operator, d⟩ := by simp [next, hu]
      rw [List.cons_append, run, hnext]
      exact ih hts

end Parsing.Counter

namespace Cursor

lemma lexemes_closing (d n : Nat) :
    (lexemes ⟨List.replicate d ')', n⟩).map Token.kind = List.replicate d .rightParen := by
  induction d generalizing n with
  | zero => simp
  | succ d ih =>
    rw [List.replicate_succ, lexemes_symbol rfl, List.map_cons, ih]
    rfl

lemma lexemes_zero_closing (d n : Nat) :
    lexemes ⟨'0' :: List.replicate d ')', n⟩ =
      ⟨.number, "0", n⟩ :: lexemes ⟨List.replicate d ')', n + 1⟩ := by
  have hstop : ¬ StartsIn isWordChar (List.replicate d ')') := by
    rintro ⟨c, hc, hword⟩
    obtain rfl := (List.mem_replicate.1 (List.mem_of_mem_head? hc)).2
    exact absurd hword (by decide)
  obtain ⟨htake, hdrop⟩ := run_exact (w := []) (by simp) hstop
  rw [List.nil_append] at htake hdrop
  rw [lexemes_word rfl, htake, hdrop]
  rfl

end Cursor

/-- With its completion behind it a state of the counting machine ends well. -/
lemma Parsing.Counter.run_completion (c : Counter) (n : Nat) (ht : t.kind = .eof) :
    c.run (Cursor.lexemes ⟨c.completion.toList, n⟩ ++ [t]) = .fine := by
  obtain ⟨_ | _, d⟩ := c
  · have hnext (m : Nat) : next ⟨.value, d⟩ ⟨.number, "0", m⟩ = .more ⟨.operator, d⟩ := rfl
    simp only [completion, String.toList_ofList]
    rw [Cursor.lexemes_blank rfl, Cursor.lexemes_zero_closing, List.cons_append, run, hnext]
    exact run_closing (Cursor.lexemes_closing d _) ht
  · simp only [completion, String.toList_ofList]
    rw [Cursor.lexemes_blank rfl]
    exact run_closing (Cursor.lexemes_closing d _) ht

/-! ### Completed texts -/

lemma Parsing.Counter.not_joined_completion (c : Counter) (cs : List Char) :
    ¬ Joined isWordChar cs c.completion.toList := by
  have hblank : ∃ ds, c.completion.toList = ' ' :: ds := by
    rw [completion]
    split <;> simp
  obtain ⟨ds, hds⟩ := hblank
  rw [hds]
  exact not_joined_cons rfl cs ds

lemma exists_visible_completion (p : String) (c : Parsing.Counter) :
    ∃ ts, Token.visible (p ++ c.completion) = (Cursor.ofText p).lexemes ++ ts ∧
      c.run ts = .fine := by
  rw [Token.visible_eq, Cursor.ofText, String.toList_append,
    Cursor.lexemes_append (c.not_joined_completion _), List.append_assoc]
  exact ⟨_, rfl, c.run_completion _ rfl⟩

/-- Where the tokens of a text are taken in, the text can be completed to an expression. -/
theorem exists_parse_completion {st : Parsing.Stack}
    (h : Parsing.Stack.empty.feedAll (Cursor.ofText p).lexemes = .more st) :
    ∃ e, (parse (p ++ st.counter.completion)).result = .ok e := by
  obtain ⟨ts, hvisible, hfine⟩ := exists_visible_completion p st.counter
  -- the counting machine, and so the stack, ends well on the tokens of the completion
  have hdiagnosis : (st.feedAll ts).diagnosis = st.counter.run ts := by
    apply Parsing.Stack.diagnosis_feedAll
    intro u hu
    apply Parsing.value?_of_visible
    rw [hvisible]
    exact List.mem_append_right _ hu
  have hverdict := Parsing.verdict_visible (p ++ st.counter.completion)
  rw [hvisible, Parsing.Stack.feedAll_append_of_more h] at hverdict
  rw [hfine] at hdiagnosis
  generalize st.feedAll ts = v at hverdict hdiagnosis
  cases v with
  | more st' => cases hdiagnosis
  | accept e => exact ⟨e, (Option.some.inj hverdict).symm⟩
  | reject fault t => cases hdiagnosis

/-! ### Tokens at a seam -/

namespace Cursor

lemma filter_dropLast_tokens (cs : List Char) (n : Nat) :
    (tokens ⟨cs, n⟩).dropLast.filter (fun t => t.kind ≠ .whitespace) = lexemes ⟨cs, n⟩ := by
  have hfilter := filter_tokens cs n
  obtain ⟨ts, hts, -⟩ := tokens_eq_append cs n
  rw [hts, List.filter_append] at hfilter
  rw [hts, List.dropLast_concat]
  exact (List.append_inj' hfilter rfl).1

end Cursor

/-- The tokens of a text before one that starts at a seam are those of what is before the seam. -/
lemma filter_of_tokens_split (h : Token.tokens (p ++ q) = us ++ t :: vs)
    (ht : t.offset = p.utf8ByteSize) :
    us.filter (fun u => u.kind ≠ .whitespace) = (Cursor.ofText p).lexemes := by
  rw [Token.tokens_eq, Cursor.ofText, String.toList_append] at h
  rw [← String.utf8Len_toList, ← Nat.zero_add (String.utf8Len _)] at ht
  rw [(Cursor.tokens_split h ht).1, Cursor.filter_dropLast_tokens]
  rfl

lemma exists_visible_of_tokens (h : Token.tokens (p ++ q) = us ++ t :: vs)
    (ht : t.offset = p.utf8ByteSize) (hk : t.kind ≠ .whitespace) :
    ∃ ws, Token.visible (p ++ q) = (Cursor.ofText p).lexemes ++ t :: ws := by
  refine ⟨vs.filter fun u => u.kind ≠ .whitespace, ?_⟩
  rw [Token.visible, h, List.filter_append, filter_of_tokens_split h ht,
    List.filter_cons_of_pos (by simpa using hk)]

lemma exists_tokens_split (h : Token.visible s = us ++ t :: vs) :
    ∃ us' vs', Token.tokens s = us' ++ t :: vs' ∧
      us'.filter (fun u => u.kind ≠ .whitespace) = us := by
  obtain ⟨us', ws, htokens, hus, hws⟩ := List.filter_eq_append_iff.1 h
  obtain ⟨bs, vs', rfl, hbs, -, -⟩ := List.filter_eq_cons_iff.1 hws
  refine ⟨us' ++ bs, vs', by rw [htokens, List.append_assoc], ?_⟩
  rw [List.filter_append, hus, List.filter_eq_nil_iff.2 hbs, List.append_nil]

/-- A token is the same in another text if its literal stands at the same place there and a token
has the same span. -/
lemma Token.eq_of_span {z : String} {u : Token} (ht : t ∈ Token.visible s) (hk : t.kind ≠ .eof)
    (hp : t.offset = p.utf8ByteSize) (hu : u ∈ Token.tokens (p ++ t.literal ++ z))
    (hspan : u.span = t.span) : u = t := by
  obtain ⟨hoff, hsize⟩ := Span.mk.inj hspan
  have hfits := (isStretch_of_mem_visible ht).2
  -- the stretch is not empty, and only white space has no literal for such a stretch
  have hne : u.literal ≠ "" := by
    rw [ne_eq, ← String.utf8ByteSize_eq_zero_iff, hsize, String.utf8ByteSize_eq_zero_iff]
    exact hfits.ne_empty hk
  have hvisible : u ∈ visible (p ++ t.literal ++ z) := by
    refine List.mem_filter.2 ⟨hu, ?_⟩
    have htile : Tile _ (Cursor.ofText (p ++ t.literal ++ z)).tokens :=
      Cursor.tile_tokens (a := []) rfl
    rw [tokens_eq] at hu
    obtain ⟨n, w, -, hlit, -⟩ := htile.of_mem hu
    by_contra hblank
    exact hne (hlit.trans (if_pos (by simpa using hblank)))
  obtain ⟨hstretch, hufits⟩ := isStretch_of_mem_visible hvisible
  -- both literals are the stretch of the same size at the same byte
  have hlit : t.literal = u.literal := by
    rw [hoff, hp, ← String.utf8Len_toList] at hstretch
    obtain ⟨b, hb, -⟩ := hstretch.exists_append (b := t.literal.toList ++ z.toList) (by simp)
    rw [← String.utf8Len_toList, ← String.utf8Len_toList] at hsize
    exact String.toList_inj.1 (append_inj_of_utf8Len hb hsize.symm).1
  -- and what the stretch is decides on the kind
  have hkind : u.kind = t.kind := by
    rw [← hlit] at hufits
    refine hufits.unique hfits ?_ hk
    intro heof
    rw [heof] at hufits
    exact hfits.ne_empty hk hufits
  obtain ⟨kind, literal, offset⟩ := u
  cases hoff
  cases hlit
  cases hkind
  rfl

/-- A rejected text can be completed up to the token at which it is rejected, and altogether if it
is rejected at its end. A text that agrees with it up to that token and has the same token there
is rejected in the same way. -/
theorem viable_of_parse_eq_error (s : String) (e : SyntaxError)
    (h : (parse s).result = .error e) :
    ∃ p q : String, s = p ++ q ∧ p.utf8ByteSize = e.diagnostic.place.offset ∧
      (∃ x t, (parse (p ++ x)).result = .ok t) ∧
      (e.token.kind = .eof → ∃ x t, (parse (s ++ x)).result = .ok t) ∧
      (e.token.kind ≠ .eof → ∀ z : String,
        (∃ u ∈ Token.tokens (p ++ e.token.literal ++ z), u.span = e.token.span) →
        (parse (p ++ e.token.literal ++ z)).result =
          .error { e with source := p ++ e.token.literal ++ z }) := by
  -- the stack takes in the tokens `us` and refuses the one behind them
  obtain ⟨-, us, vs, st, hvisible, hus, hfeed⟩ := Parsing.parse_eq_error_iff.1 h
  have hmem : e.token ∈ Token.visible s := by
    rw [hvisible]
    exact List.mem_append_right us List.mem_cons_self
  obtain ⟨p, q, hs, hp, -⟩ := (Token.isStretch_of_mem_visible hmem).1
  rw [String.append_assoc] at hs
  obtain ⟨us', vs', htokens, hfilter⟩ := exists_tokens_split hvisible
  rw [hs] at htokens
  rw [← hfilter, filter_of_tokens_split htokens hp.symm] at hus
  refine ⟨p, e.token.literal ++ q, hs, hp, ⟨_, exists_parse_completion hus⟩, ?_, ?_⟩
  · -- the end token is behind the whole text, so there is nothing but `p`
    intro hk
    rcases Token.mem_visible_iff.1 hmem with hlexeme | heof
    · simp [Cursor.lexemes, hk] at hlexeme
    · have hsize : p.utf8ByteSize = (p ++ (e.token.literal ++ q)).utf8ByteSize := by
        rw [← hs, hp, heof]
      rw [String.utf8ByteSize_append, Nat.left_eq_add, String.utf8ByteSize_eq_zero_iff] at hsize
      rw [hsize, String.append_empty] at hs
      rw [hs]
      exact ⟨_, exists_parse_completion hus⟩
  · -- the altered text has `us` in front of the same token, and the stack sees no further
    rintro hk z ⟨u, hu, hspan⟩
    obtain rfl := Token.eq_of_span hmem hk hp.symm hu hspan
    rw [String.append_assoc] at hu ⊢
    obtain ⟨us₂, vs₂, htokens₂⟩ := List.append_of_mem hu
    have hblank : e.token.kind ≠ .whitespace := by simpa using (List.mem_filter.1 hmem).2
    obtain ⟨ws, hws⟩ := exists_visible_of_tokens htokens₂ hp.symm hblank
    exact Parsing.parse_eq_error_iff.2 ⟨rfl, _, ws, st, hws, hus, hfeed⟩

theorem viable_of_parse_eq_error_group :
    (parse "(1 é").result = .error ⟨.missingOperator, ⟨.text, "é", 3⟩, "(1 é"⟩ ∧
      ∃ p q : String, "(1 é" = p ++ q ∧ p.utf8ByteSize = 3 ∧
        (∃ x t, (parse (p ++ x)).result = .ok t) ∧
        ∀ z : String, (∃ u ∈ Token.tokens (p ++ "é" ++ z), u.span = ⟨3, 2⟩) →
          (parse (p ++ "é" ++ z)).result =
            .error ⟨.missingOperator, ⟨.text, "é", 3⟩, p ++ "é" ++ z⟩ := by
  have h : (parse "(1 é").result = .error ⟨.missingOperator, ⟨.text, "é", 3⟩, "(1 é"⟩ := by
    decide +kernel
  obtain ⟨p, q, hs, hp, hx, -, hz⟩ := viable_of_parse_eq_error _ _ h
  exact ⟨h, p, q, hs, hp, hx, hz (by decide)⟩

end Calculator
