import Calculator.Proofs.Calculation.WhiteSpace
import Calculator.Proofs.Number.Comparison

/-!
# Parentheses

An expression in parentheses matters through its value only. Two texts with the same value can be
exchanged for one another there, whatever stands before and behind the parentheses: the outcome of
the calculation is the same, failures included, with the places behind the parentheses moved.
-/

namespace Calculator

open Parsing

variable {R : Span → Span → Prop} {E : Expr → Expr → Prop}

/-! ### Places -/

/-- Spans in two texts that are the same up to the byte `n`, and the same again from their bytes
`m` and `m'` on. -/
inductive Span.Around (n m m' : Nat) : Span → Span → Prop where
  | before {sp : Span} (h : sp.offset + sp.length ≤ n) : Around n m m' sp sp
  | behind (d length : Nat) : Around n m m' ⟨m + d, length⟩ ⟨m' + d, length⟩

/-! ### Tokens -/

lemma lexemes_parentheses (a b c : List Char) (n : Nat) :
    Cursor.lexemes ⟨a ++ '(' :: (b ++ ')' :: c), n⟩ =
      Cursor.lexemes ⟨a, n⟩ ++ ⟨.leftParen, "(", n + String.utf8Len a⟩ ::
        (Cursor.lexemes ⟨b, n + String.utf8Len a + 1⟩ ++
          ⟨.rightParen, ")", n + String.utf8Len a + 1 + String.utf8Len b⟩ ::
            Cursor.lexemes ⟨c, n + String.utf8Len a + 1 + String.utf8Len b + 1⟩) := by
  rw [Cursor.lexemes_append_symbol rfl, Cursor.lexemes_append_symbol rfl]
  rfl

lemma visible_parentheses (p e q : String) :
    Token.visible (p ++ "(" ++ e ++ ")" ++ q) =
      (Cursor.ofText p).lexemes ++ ⟨.leftParen, "(", p.utf8ByteSize⟩ ::
        ((Cursor.ofText e).lexemes.map (Token.shift (p.utf8ByteSize + 1)) ++
          ⟨.rightParen, ")", p.utf8ByteSize + 1 + e.utf8ByteSize⟩ ::
            (Token.visible q).map (Token.shift (p.utf8ByteSize + 1 + e.utf8ByteSize + 1))) := by
  have htext : (p ++ "(" ++ e ++ ")" ++ q).toList =
      p.toList ++ '(' :: (e.toList ++ ')' :: q.toList) := by simp
  have hsize : (p ++ "(" ++ e ++ ")" ++ q).utf8ByteSize =
      q.utf8ByteSize + (p.utf8ByteSize + 1 + e.utf8ByteSize + 1) := by
    simp only [String.utf8ByteSize_append]
    rw [Nat.add_comm]
    rfl
  rw [Token.visible_eq, Token.visible_eq, Cursor.ofText, htext, hsize, lexemes_parentheses]
  simp only [Cursor.ofText, ← String.utf8Len_toList, Nat.zero_add, List.map_append,
    ← Cursor.lexemes_add, List.append_assoc, List.cons_append]
  rfl

lemma exists_derives_lexemes {s : String} {e : Expr} {x : Number} (h : (parse s).result = .ok e)
    (hx : e.eval = .ok x) (m : Nat) :
    ∃ e', Derives .expression ((Cursor.ofText s).lexemes.map (Token.shift m)) e' ∧
      e'.eval = .ok x := by
  obtain ⟨ts, t, hs, -, hd⟩ := exists_derives_of_parse h
  rw [Token.visible_eq] at hs
  obtain ⟨rfl, -⟩ := List.append_inj' hs rfl
  obtain ⟨e', hd', ha⟩ := hd.of_content (Token.content_map_shift m _)
  have heval := ha.evalAlike
  rw [Expr.EvalAlike, hx] at heval
  generalize hx' : e'.eval = x' at heval
  cases heval
  exact ⟨e', hd', hx'⟩

/-! ### Reading on after the parentheses -/

lemma Parsing.Derives.feedAll_group {l r : Token} {ts us : List Token} {e : Expr}
    {frames : List Frame} (hd : Derives .expression ts e) (hl : l.kind = .leftParen)
    (hr : r.kind = .rightParen) :
    (⟨frames, .value⟩ : Stack).feedAll (l :: (ts ++ r :: us)) =
      (Stack.settle e frames).feedAll us := by
  have hsplit : l :: (ts ++ r :: us) = (l :: (ts ++ [r])) ++ us := by simp
  rw [hsplit, Stack.feedAll_append_of_more ((Derives.group hl hd hr).taken frames)]

/-- Related expressions in parentheses do the same, unless the opening parenthesis is rejected
already. -/
lemma feedAll_parentheses_alike (hE : Expr.IsCongruence R E) {s s' : Stack} {l r r' : Token}
    {ts ts' us us' : List Token} {e e' : Expr} (hs : s.Alike R E s') (hl : l.kind = .leftParen)
    (hspan : R l.span l.span) (hd : Derives .expression ts e) (hd' : Derives .expression ts' e')
    (he : E e e') (hr : r.kind = .rightParen) (hr' : r'.kind = .rightParen)
    (hus : List.Forall₂ (Token.Alike R) us us') :
    (s.feedAll (l :: (ts ++ r :: us))).Alike R E (s'.feedAll (l :: (ts' ++ r' :: us'))) := by
  obtain ⟨frames, wanted⟩ := s
  obtain ⟨frames', wanted'⟩ := s'
  obtain ⟨hframes, hwanted⟩ := hs
  cases hwanted with
  | value =>
    rw [hd.feedAll_group hl hr, hd'.feedAll_group hl hr']
    exact Stack.feedAll_alike hE (Stack.settle_alike hE he hframes) hus
  | @operator left left' hleft =>
    -- what is inside the parentheses is not looked at
    have hreject (frames : List Frame) (left : Expr) :
        (⟨frames, .operator left⟩ : Stack).feed l = .reject .missingOperator l := by
      simp [Stack.feed, Stack.feedOperator, hl]
    rw [Stack.feedAll_of_reject (hreject frames left),
      Stack.feedAll_of_reject (hreject frames' left')]
    exact .reject _ ⟨rfl, rfl, hspan⟩

/-! ### Texts -/

lemma alike_lexemes_before (p : String) (m m' : Nat) :
    List.Forall₂ (Token.Alike (Span.Around (p.utf8ByteSize + 1) m m')) (Cursor.ofText p).lexemes
      (Cursor.ofText p).lexemes := by
  rw [List.forall₂_same]
  intro t ht
  have hle := (Cursor.le_of_mem_lexemes ht).2
  rw [Nat.zero_add, String.utf8Len_toList] at hle
  exact ⟨rfl, rfl, .before (Nat.le_succ_of_le hle)⟩

lemma alike_visible_behind (q : String) (n m m' : Nat) :
    List.Forall₂ (Token.Alike (Span.Around n m m')) ((Token.visible q).map (Token.shift (m + 1)))
      ((Token.visible q).map (Token.shift (m' + 1))) := by
  rw [List.forall₂_map_left_iff, List.forall₂_map_right_iff, List.forall₂_same]
  intro t _
  have hspan (m : Nat) : (t.shift (m + 1)).span = ⟨m + (t.offset + 1), t.span.length⟩ :=
    congrArg (Span.mk · t.span.length) (Nat.add_left_comm t.offset m 1)
  refine ⟨rfl, rfl, ?_⟩
  rw [hspan, hspan]
  exact .behind (t.offset + 1) t.span.length

/-- Texts of the same value can be exchanged for one another in parentheses: the number or the
failure that comes out is the same, but for the places behind the parentheses. -/
theorem calculate_parentheses_alike (p q e e' : String) {t t' : Expr} {x x' : Number}
    (h : (parse e).result = .ok t) (hx : t.eval = .ok x) (h' : (parse e').result = .ok t')
    (hx' : t'.eval = .ok x') (hsame : x.Same x') :
    OutcomeAlike
      (Span.Around (p.utf8ByteSize + 1) (p.utf8ByteSize + 1 + e.utf8ByteSize)
        (p.utf8ByteSize + 1 + e'.utf8ByteSize))
      (p ++ "(" ++ e ++ ")" ++ q) (p ++ "(" ++ e' ++ ")" ++ q)
      (calculate (p ++ "(" ++ e ++ ")" ++ q)) (calculate (p ++ "(" ++ e' ++ ")" ++ q)) := by
  obtain ⟨u, hd, hu⟩ := exists_derives_lexemes h hx (p.utf8ByteSize + 1)
  obtain ⟨u', hd', hu'⟩ := exists_derives_lexemes h' hx' (p.utf8ByteSize + 1)
  obtain rfl := hsame.eq
  apply calculate_alike
  apply parse_alike
  rw [visible_parentheses, visible_parentheses]
  apply Stack.feedAll_append_alike
  · -- the tokens before the parentheses are alike to themselves, so that the stacks are as well
    apply Stack.feedAll_alike Expr.isCongruence_evalAlike Stack.alike_empty
    exact alike_lexemes_before p _ _
  · intro s s' hs
    exact feedAll_parentheses_alike Expr.isCongruence_evalAlike hs rfl (.before le_rfl) hd hd'
      (Expr.evalAlike_of_eval hu hu') rfl rfl (alike_visible_behind q _ _ _)

theorem calculate_parentheses_alike_quotient :
    calculate "6-4" = .ok 2 ∧ calculate " 2" = .ok 2 ∧
      OutcomeAlike (Span.Around 3 6 5) ("8/" ++ "(" ++ "6-4" ++ ")" ++ "/0")
        ("8/" ++ "(" ++ " 2" ++ ")" ++ "/0") (calculate ("8/" ++ "(" ++ "6-4" ++ ")" ++ "/0"))
        (calculate ("8/" ++ "(" ++ " 2" ++ ")" ++ "/0")) := by
  have h : (parse "6-4").result = .ok (.binary .sub (.number 6) (.number 4) ⟨1, 1⟩) := by
    decide +kernel
  have hx : (Expr.binary .sub (.number 6) (.number 4) ⟨1, 1⟩).eval = .ok 2 := by decide +kernel
  have h' : (parse " 2").result = .ok (.number 2) := by decide +kernel
  refine ⟨by decide +kernel, by decide +kernel, ?_⟩
  exact calculate_parentheses_alike "8/" "/0" "6-4" " 2" h hx h' rfl (.inl rfl)

end Calculator
