import Calculator.Proofs.Parsing.Pushdown

/-!
# The grammar of expressions

An expression is a term, or a term followed by `+` or `-` and an expression. A term is a value, or a
term followed by `*` or `/` and a value. A value is a number, or an expression in parentheses.

The texts that are read as an expression are those whose visible tokens derive one, followed by the
end token, and what is read is the expression that they derive. That the stack takes in whatever is
derived goes by induction on the derivation (`Derives.taken`). For the converse the stack is seen as
the tokens taken in so far, cut up into parts that derive something (`Stack.Spells`).
-/

namespace Calculator.Parsing

/-- The categories of the grammar. -/
inductive Category where
  | value
  | term
  | expression

/-- Tokens of a category, with the expression that they derive. -/
inductive Derives : Category → List Token → Expr → Prop where
  | number {t : Token} {x : Number} (ht : t.kind = .number)
      (hx : Number.ofText? t.literal = some x) : Derives .value [t] (.number x)
  | group {l r : Token} {ts : List Token} {e : Expr} (hl : l.kind = .leftParen)
      (h : Derives .expression ts e) (hr : r.kind = .rightParen) :
      Derives .value (l :: (ts ++ [r])) e
  | ofValue {ts : List Token} {e : Expr} (h : Derives .value ts e) : Derives .term ts e
  | mul {ts us : List Token} {t : Token} {op : Operator} {left right : Expr}
      (hl : Derives .term ts left) (ht : t.kind = .operator op) (hop : op.isAdditive = false)
      (hr : Derives .value us right) :
      Derives .term (ts ++ t :: us) (.binary op left right t.span)
  | ofTerm {ts : List Token} {e : Expr} (h : Derives .term ts e) : Derives .expression ts e
  | add {ts us : List Token} {t : Token} {op : Operator} {left right : Expr}
      (hl : Derives .term ts left) (ht : t.kind = .operator op) (hop : op.isAdditive = true)
      (hr : Derives .expression us right) :
      Derives .expression (ts ++ t :: us) (.binary op left right t.span)

lemma Derives.expression {c : Category} {ts : List Token} {e : Expr} (h : Derives c ts e) :
    Derives .expression ts e := by
  cases c with
  | value => exact .ofTerm (.ofValue h)
  | term => exact .ofTerm h
  | expression => exact h

/-! ### Numbers and operators in their order -/

/-- Tokens with an expression that has their numbers and operators in the same order, and each group
of them as a part, however its chains nest. -/
inductive Nests : List Token → Expr → Prop where
  | number {t : Token} {x : Number} (ht : t.kind = .number)
      (hx : Number.ofText? t.literal = some x) : Nests [t] (.number x)
  | group {l r : Token} {ts : List Token} {e : Expr} (hl : l.kind = .leftParen) (h : Nests ts e)
      (hr : r.kind = .rightParen) : Nests (l :: (ts ++ [r])) e
  | binary {ts us : List Token} {t : Token} {op : Operator} {left right : Expr}
      (hl : Nests ts left) (ht : t.kind = .operator op) (hr : Nests us right) :
      Nests (ts ++ t :: us) (.binary op left right t.span)

lemma Derives.nests {c : Category} {ts : List Token} {e : Expr} (h : Derives c ts e) :
    Nests ts e := by
  induction h with
  | number ht hx => exact .number ht hx
  | group hl h hr ih => exact .group hl ih hr
  | ofValue h ih => exact ih
  | mul hl ht hop hr ihl ihr => exact ihl.binary ht ihr
  | ofTerm h ih => exact ih
  | add hl ht hop hr ihl ihr => exact ihl.binary ht ihr

/-! ### Chains -/

/-- An operator with the operand behind it. -/
structure Link where
  sign : Token
  op : Operator
  tokens : List Token
  tree : Expr

/-- The tokens of an operand and of the links that follow it. -/
def chain (ts : List Token) (links : List Link) : List Token :=
  ts ++ links.flatMap fun l => l.sign :: l.tokens

/-- A chain nested to the left. -/
def nestLeft (e : Expr) (links : List Link) : Expr :=
  links.foldl (fun e l => .binary l.op e l.tree l.sign.span) e

/-- A chain nested to the right. -/
def nestRight : Expr → List Link → Expr
  | e, [] => e
  | e, l :: links => .binary l.op e (nestRight l.tree links) l.sign.span

lemma Derives.chain_nestLeft {ts : List Token} {e : Expr} {links : List Link}
    (h : Derives .term ts e)
    (hlinks : ∀ l ∈ links, l.sign.kind = .operator l.op ∧ l.op.isAdditive = false ∧
      Derives .value l.tokens l.tree) :
    Derives .term (chain ts links) (nestLeft e links) := by
  induction links generalizing ts e with
  | nil => simpa [chain, nestLeft] using h
  | cons l links ih =>
    obtain ⟨hk, hop, hl⟩ := hlinks l List.mem_cons_self
    have := ih (h.mul hk hop hl) fun l' hl' => hlinks l' (List.mem_cons_of_mem l hl')
    simpa [chain, nestLeft] using this

lemma Derives.chain_nestRight {ts : List Token} {e : Expr} {links : List Link}
    (h : Derives .term ts e)
    (hlinks : ∀ l ∈ links, l.sign.kind = .operator l.op ∧ l.op.isAdditive = true ∧
      Derives .term l.tokens l.tree) :
    Derives .expression (chain ts links) (nestRight e links) := by
  induction links generalizing ts e with
  | nil => simpa [chain, nestRight] using h.expression
  | cons l links ih =>
    obtain ⟨hk, hop, hl⟩ := hlinks l List.mem_cons_self
    have := ih hl fun l' hl' => hlinks l' (List.mem_cons_of_mem l hl')
    simpa [chain, nestRight] using h.add hk hop this

/-! ### What is derived is taken in -/

namespace Stack

/-- The stack takes in these tokens as an expression of a category. -/
def Taken (c : Category) (ts : List Token) (e : Expr) : Prop :=
  match c with
  | .value => ∀ frames, feedAll ⟨frames, .value⟩ ts = .more (settle e frames)
  | .term => ∀ frames, IsSettled frames →
      feedAll ⟨frames, .value⟩ ts = .more ⟨frames, .operator e⟩
  | .expression => ∀ frames, IsSettled frames → ∃ inner left,
      feedAll ⟨frames, .value⟩ ts = .more ⟨inner, .operator left⟩ ∧
        close left inner = close e frames

end Stack

open Stack in
/-- Whatever is derived is taken in. -/
theorem Derives.taken {c : Category} {ts : List Token} {e : Expr} (h : Derives c ts e) :
    Taken c ts e := by
  -- in each case the frames below are any that the category may stand on
  induction h with
  | @number t x ht hx =>
    intro frames
    have hvalue : t.value? = some x := by rwa [Token.value?, ht]
    rw [feedAll_of_more (feed_number ht hvalue), feedAll_nil]
  | group hl h hr ih =>
    intro frames
    obtain ⟨inner, left, hfeed, hclose⟩ := ih (.group :: frames) trivial
    rw [feedAll_of_more (feed_leftParen hl), feedAll_append_of_more hfeed,
      feedAll_of_more (feed_rightParen_group hr hclose), feedAll_nil]
  | ofValue h ih =>
    intro frames hframes
    rw [ih frames, settle_of_isSettled hframes]
  | mul hl ht hop hr ihl ihr =>
    intro frames hframes
    rw [feedAll_append_of_more (ihl frames hframes), feedAll_of_more (feed_operator ht), ihr,
      settle_operand hop]
  | ofTerm h ih =>
    intro frames hframes
    exact ⟨frames, _, ih frames hframes, rfl⟩
  | @add ts us t op left right hl ht hop hr ihl ihr =>
    intro frames hframes
    -- the sign stays on the stack, and waits for all of what follows
    obtain ⟨inner, left', hfeed, hclose⟩ := ihr (.operand left op t.span :: frames) hop
    refine ⟨inner, left', ?_, hclose⟩
    rw [feedAll_append_of_more (ihl frames hframes), feedAll_of_more (feed_operator ht), hfeed]

theorem Derives.accept {c : Category} {ts : List Token} {t : Token} {e : Expr}
    (h : Derives c ts e) (ht : t.kind = .eof) :
    Stack.empty.feedAll (ts ++ [t]) = .accept e := by
  obtain ⟨inner, left, hfeed, hclose⟩ := h.expression.taken [] trivial
  rw [Stack.empty, Stack.feedAll_append_of_more hfeed]
  exact Stack.feedAll_of_accept (Stack.feed_eof_top ht hclose)

theorem Derives.unique {c d : Category} {ts : List Token} {e e' : Expr} (h : Derives c ts e)
    (h' : Derives d ts e') : e = e' := by
  have heof : (⟨.eof, "", 0⟩ : Token).kind = .eof := rfl
  have heq := (h.accept heof).symm.trans (h'.accept heof)
  injection heq

/-! ### What is taken in is derived -/

/-- Incomplete parts stand for these tokens. -/
inductive Spelled : List Frame → List Token → Prop where
  | nil : Spelled [] []
  | group {frames : List Frame} {ts : List Token} {t : Token} (h : Spelled frames ts)
      (ht : t.kind = .leftParen) : Spelled (.group :: frames) (ts ++ [t])
  | operand {frames : List Frame} {ts us : List Token} {t : Token} {op : Operator} {left : Expr}
      (h : Spelled frames ts) (hs : IsSettled frames) (hd : Derives .term us left)
      (ht : t.kind = .operator op) :
      Spelled (.operand left op t.span :: frames) (ts ++ us ++ [t])

/-- A stack stands for these tokens. -/
def Stack.Spells (s : Stack) (ts : List Token) : Prop :=
  match s.wanted with
  | .value => Spelled s.frames ts
  | .operator left => IsSettled s.frames ∧
      ∃ us vs, ts = us ++ vs ∧ Spelled s.frames us ∧ Derives .term vs left

namespace Stack

variable {frames outer : List Frame} {us vs ts : List Token} {e e' left : Expr} {t : Token}

lemma settle_spells (h : Spelled frames us) (hd : Derives .value vs e) :
    (settle e frames).Spells (us ++ vs) := by
  cases h with
  | nil => exact ⟨trivial, [], vs, rfl, .nil, .ofValue hd⟩
  | @group frames ts t h ht => exact ⟨trivial, ts ++ [t], vs, rfl, h.group ht, .ofValue hd⟩
  | @operand frames ts us t op left h hs hl ht =>
    cases hop : op.isAdditive with
    | true =>
      rw [settle_of_isSettled (show IsSettled (.operand left op t.span :: frames) from hop)]
      exact ⟨hop, _, vs, rfl, h.operand hs hl ht, .ofValue hd⟩
    | false =>
      rw [settle_operand hop]
      exact ⟨hs, ts, us ++ t :: vs, by simp, h, hl.mul ht hop hd⟩

lemma derives_of_close_top (h : Spelled frames us) (hs : IsSettled frames)
    (hd : Derives .expression vs e) (hc : close e frames = (e', none)) :
    Derives .expression (us ++ vs) e' := by
  induction h generalizing vs e with
  | nil =>
    cases hc
    exact hd
  | group => cases hc
  | @operand frames ts us t op left h hs' hl ht ih =>
    have := ih hs' (hl.add ht hs hd) hc
    simpa using this

lemma derives_of_close_group (h : Spelled frames us) (hs : IsSettled frames)
    (hd : Derives .expression vs e) (hc : close e frames = (e', some outer)) :
    ∃ us' l vs', us ++ vs = us' ++ l :: vs' ∧ l.kind = .leftParen ∧ Spelled outer us' ∧
      Derives .expression vs' e' := by
  induction h generalizing vs e with
  | nil => cases hc
  | @group frames ts t h ht =>
    cases hc
    exact ⟨ts, t, vs, by simp, ht, h, hd⟩
  | @operand frames ts us t op left h hs' hl ht ih =>
    have := ih hs' (hl.add ht hs hd) hc
    simpa using this

/-- Taking in a token appends it to what the stack stands for. -/
theorem Takes.spells {s s' : Stack} (h : Takes t s s') (hs : s.Spells ts) :
    s'.Spells (ts ++ [t]) := by
  cases h with
  | leftParen frames ht => exact Spelled.group hs ht
  | number frames x ht hx =>
    have hd : Derives .value [t] (.number x) := .number ht (by simpa [Token.value?, ht] using hx)
    exact settle_spells hs hd
  | rightParen frames outer left e ht hc =>
    obtain ⟨hsettled, us, vs, rfl, hus, hd⟩ := hs
    obtain ⟨us', l, vs', heq, hl, hus', hd'⟩ :=
      derives_of_close_group hus hsettled hd.expression hc
    rw [heq, List.append_assoc, List.cons_append]
    exact settle_spells hus' (.group hl hd' ht)
  | operator frames left op ht =>
    obtain ⟨hsettled, us, vs, rfl, hus, hd⟩ := hs
    exact hus.operand hsettled hd ht

/-- Tokens that are accepted up to the end token derive what was accepted. -/
theorem derives_of_accept {s : Stack} (hs : s.Spells ts) (h : s.feedAll us = .accept e) :
    ∃ vs t ws, us = vs ++ t :: ws ∧ t.kind = .eof ∧ Derives .expression (ts ++ vs) e := by
  induction us generalizing s ts with
  | nil => simp at h
  | cons u us ih =>
    cases hu : s.feed u with
    | more s' =>
      rw [feedAll_of_more hu] at h
      obtain ⟨vs, t, ws, rfl, ht, hd⟩ := ih ((Takes.of_feed hu).spells hs) h
      exact ⟨u :: vs, t, ws, rfl, ht, by simpa using hd⟩
    | accept e' =>
      rw [feedAll_of_accept hu] at h
      cases h
      obtain ⟨frames, left, rfl, ht, hc⟩ := of_feed_eq_accept hu
      obtain ⟨hsettled, us', vs', rfl, hus, hd⟩ := hs
      refine ⟨[], u, us, rfl, ht, ?_⟩
      rw [List.append_nil]
      exact derives_of_close_top hus hsettled hd.expression hc
    | reject fault u' =>
      rw [feedAll_of_reject hu] at h
      cases h

end Stack

/-! ### Texts -/

/-- Of the visible tokens of a text the last one is the end token, and no other is. -/
lemma visible_split {s : String} {ts us : List Token} {t : Token}
    (h : Token.visible s = ts ++ t :: us) (ht : t.kind = .eof) : us = [] := by
  rw [Token.visible_eq] at h
  rcases List.eq_nil_or_concat us with rfl | ⟨us', u, rfl⟩
  · rfl
  · have h' : (Cursor.ofText s).lexemes ++ [⟨.eof, "", s.utf8ByteSize⟩] =
        (ts ++ t :: us') ++ [u] := by simpa using h
    obtain ⟨hlexemes, -⟩ := List.append_inj' h' rfl
    have hmem : t ∈ (Cursor.ofText s).lexemes := by
      rw [hlexemes]
      exact List.mem_append_right ts List.mem_cons_self
    simp [Cursor.lexemes, ht] at hmem

theorem exists_derives_of_parse {s : String} {e : Expr} (h : (parse s).result = .ok e) :
    ∃ ts t, Token.visible s = ts ++ [t] ∧ t.kind = .eof ∧ Derives .expression ts e := by
  have hverdict := verdict_visible s
  rw [h] at hverdict
  have haccept : Stack.empty.feedAll (Token.visible s) = .accept e := by
    cases hv : Stack.empty.feedAll (Token.visible s) <;> simp_all [Verdict.result?]
  have hempty : Stack.empty.Spells [] := Spelled.nil
  obtain ⟨ts, t, us, hs, ht, hd⟩ := Stack.derives_of_accept hempty haccept
  obtain rfl := visible_split hs ht
  exact ⟨ts, t, hs, ht, hd⟩

/-- A text is read as the expression that its lexemes derive. -/
theorem parse_eq_ok_iff {s : String} {e : Expr} :
    (parse s).result = .ok e ↔ Derives .expression (Cursor.ofText s).lexemes e := by
  constructor
  · intro h
    obtain ⟨ts, t, hs, -, hd⟩ := exists_derives_of_parse h
    rw [Token.visible_eq] at hs
    obtain ⟨rfl, -⟩ := List.append_inj' hs rfl
    exact hd
  · intro hd
    have hverdict := verdict_visible s
    rw [Token.visible_eq, hd.accept rfl] at hverdict
    exact (Option.some.inj hverdict).symm

/-- A text is read as an expression if and only if its visible tokens derive that expression and
are followed by the end token. No tokens derive two expressions; chains of `*` and `/` nest to the
left, and chains of `+` and `-` to the right. -/
theorem parse_eq_ok_iff_derives :
    (∀ (s : String) (e : Expr), (parse s).result = .ok e ↔
      ∃ ts t, Token.visible s = ts ++ [t] ∧ t.kind = .eof ∧ Derives .expression ts e) ∧
    (∀ (c d : Category) (ts : List Token) (e e' : Expr),
      Derives c ts e → Derives d ts e' → e = e') ∧
    (∀ (ts : List Token) (e : Expr) (links : List Link), Derives .term ts e →
      (∀ l ∈ links, l.sign.kind = .operator l.op ∧ l.op.isAdditive = false ∧
        Derives .value l.tokens l.tree) →
      Derives .term (chain ts links) (nestLeft e links)) ∧
    ∀ (ts : List Token) (e : Expr) (links : List Link), Derives .term ts e →
      (∀ l ∈ links, l.sign.kind = .operator l.op ∧ l.op.isAdditive = true ∧
        Derives .term l.tokens l.tree) →
      Derives .expression (chain ts links) (nestRight e links) := by
  refine ⟨?_, ?_, ?_, ?_⟩
  · intro s e
    constructor
    · exact exists_derives_of_parse
    · rintro ⟨ts, t, hs, ht, hd⟩
      have hverdict := verdict_visible s
      rw [hs, hd.accept ht] at hverdict
      exact (Option.some.inj hverdict).symm
  · intro c d ts e e' h h'
    exact h.unique h'
  · intro ts e links h hlinks
    exact h.chain_nestLeft hlinks
  · intro ts e links h hlinks
    exact h.chain_nestRight hlinks

/-- Two quotients and two differences in a row. -/
theorem parse_eq_ok_iff_derives_row :
    let row (op : Operator) : List Link :=
      [⟨⟨.operator op, op.text, 1⟩, op, [⟨.number, "3", 2⟩], .number 3⟩,
        ⟨⟨.operator op, op.text, 3⟩, op, [⟨.number, "2", 4⟩], .number 2⟩]
    let quotients := chain [⟨.number, "6", 0⟩] (row .div)
    let differences := chain [⟨.number, "6", 0⟩] (row .sub)
    Derives .term quotients (nestLeft (.number 6) (row .div)) ∧
    Derives .expression differences (nestRight (.number 6) (row .sub)) ∧
    nestRight (.number 6) (row .sub) =
      .binary .sub (.number 6) (.binary .sub (.number 3) (.number 2) ⟨3, 1⟩) ⟨1, 1⟩ ∧
    Token.visible "6/3/2" = quotients ++ [⟨.eof, "", 5⟩] ∧
    (parse "6/3/2").result = .ok (nestLeft (.number 6) (row .div)) := by
  intro row quotients differences
  obtain ⟨hparse, hunique, hleft, hright⟩ := parse_eq_ok_iff_derives
  have hsix : Derives .value [⟨.number, "6", 0⟩] (.number 6) := .number rfl (by decide +kernel)
  have hthree : Derives .value [⟨.number, "3", 2⟩] (.number 3) := .number rfl (by decide +kernel)
  have htwo : Derives .value [⟨.number, "2", 4⟩] (.number 2) := .number rfl (by decide +kernel)
  have hquotients := hleft _ _ (row .div) (.ofValue hsix)
    (by simpa [row, Operator.isAdditive] using ⟨hthree, htwo⟩)
  have hdifferences := hright _ _ (row .sub) (.ofValue hsix)
    (by simpa [row, Operator.isAdditive] using ⟨Derives.ofValue hthree, Derives.ofValue htwo⟩)
  have hvisible : Token.visible "6/3/2" = quotients ++ [⟨.eof, "", 5⟩] := by decide +kernel
  refine ⟨hquotients, hdifferences, ?_, hvisible, ?_⟩
  · exact hunique .expression .expression _ _ _ hdifferences
      (.add (.ofValue hsix) rfl rfl (.add (.ofValue hthree) rfl rfl htwo.expression))
  · exact (hparse _ _).2 ⟨quotients, _, hvisible, rfl, hquotients.expression⟩

example : (parse "10-(3)-2*4*5").result.toOption.map Expr.text =
    some "(- 10 (- 3 (* (* 2 4) 5)))" := by
  decide +kernel

end Calculator.Parsing
