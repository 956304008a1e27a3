import Calculator.Proofs.Calculation.Report
import Calculator.Proofs.Parsing.Grouping

/-!
# The conventional grammar

By convention chains of `+` and `-` nest to the left, as chains of `*` and `/` do. This gives
another expression than the one that is read as soon as two of `+` and `-` stand in one chain, and
only then: wherever that is in a text, it shows in the whole expression.
-/

namespace Calculator.Parsing

variable {c : Category} {ts us vs : List Token} {t l r : Token} {e e' : Expr} {op : Operator}

/-- Tokens of a category, with the expression that they derive if chains of all operators nest to
the left. -/
inductive Conventional : Category → List Token → Expr → Prop where
  | number {t : Token} {x : Number} (ht : t.kind = .number)
      (hx : Number.ofText? t.literal = some x) : Conventional .value [t] (.number x)
  | group {l r : Token} {ts : List Token} {e : Expr} (hl : l.kind = .leftParen)
      (h : Conventional .expression ts e) (hr : r.kind = .rightParen) :
      Conventional .value (l :: (ts ++ [r])) e
  | ofValue {ts : List Token} {e : Expr} (h : Conventional .value ts e) : Conventional .term ts e
  | mul {ts us : List Token} {t : Token} {op : Operator} {left right : Expr}
      (hl : Conventional .term ts left) (ht : t.kind = .operator op) (hop : op.isAdditive = false)
      (hr : Conventional .value us right) :
      Conventional .term (ts ++ t :: us) (.binary op left right t.span)
  | ofTerm {ts : List Token} {e : Expr} (h : Conventional .term ts e) :
      Conventional .expression ts e
  | add {ts us : List Token} {t : Token} {op : Operator} {left right : Expr}
      (hl : Conventional .expression ts left) (ht : t.kind = .operator op)
      (hop : op.isAdditive = true) (hr : Conventional .term us right) :
      Conventional .expression (ts ++ t :: us) (.binary op left right t.span)

lemma Conventional.nests (h : Conventional c ts e) : Nests ts e := by
  induction h with
  | number ht hx => exact .number ht hx
  | group hl h hr ih => exact .group hl ih hr
  | ofValue h ih => exact ih
  | mul hl ht hop hr ihl ihr => exact ihl.binary ht ihr
  | ofTerm h ih => exact ih
  | add hl ht hop hr ihl ihr => exact ihl.binary ht ihr

/-! ### The same tokens -/

lemma Conventional.exists_prepend (h : Conventional .expression us e') {left : Expr}
    (hl : Conventional .term ts left) (ht : t.kind = .operator op) (hop : op.isAdditive = true) :
    ∃ e, Conventional .expression (ts ++ t :: us) e := by
  generalize hc : Category.expression = c at h
  induction h with
  | number => cases hc
  | group => cases hc
  | ofValue => cases hc
  | mul => cases hc
  | ofTerm h ih => exact ⟨_, .add (.ofTerm hl) ht hop h⟩
  | @add us vs t' op' left' right' hl' ht' hop' hr' ihl ihr =>
    obtain ⟨e, he⟩ := ihl hc
    have := he.add ht' hop' hr'
    exact ⟨_, by simpa using this⟩

/-- Whatever derives an expression has a conventional one. -/
theorem Derives.exists_conventional (h : Derives c ts e) : ∃ e', Conventional c ts e' := by
  induction h with
  | number ht hx => exact ⟨_, .number ht hx⟩
  | group hl h hr ih =>
    obtain ⟨e', he⟩ := ih
    exact ⟨e', .group hl he hr⟩
  | ofValue h ih =>
    obtain ⟨e', he⟩ := ih
    exact ⟨e', .ofValue he⟩
  | mul hl ht hop hr ihl ihr =>
    obtain ⟨left, hleft⟩ := ihl
    obtain ⟨right, hright⟩ := ihr
    exact ⟨_, hleft.mul ht hop hright⟩
  | ofTerm h ih =>
    obtain ⟨e', he⟩ := ih
    exact ⟨e', .ofTerm he⟩
  | add hl ht hop hr ihl ihr =>
    obtain ⟨left, hleft⟩ := ihl
    obtain ⟨right, hright⟩ := ihr
    exact hright.exists_prepend hleft ht hop

/-- Whatever has a conventional expression derives one. -/
theorem Conventional.exists_derives (h : Conventional c ts e) : ∃ e', Derives c ts e' := by
  induction h with
  | number ht hx => exact ⟨_, .number ht hx⟩
  | group hl h hr ih =>
    obtain ⟨e', he⟩ := ih
    exact ⟨e', .group hl he hr⟩
  | ofValue h ih =>
    obtain ⟨e', he⟩ := ih
    exact ⟨e', .ofValue he⟩
  | mul hl ht hop hr ihl ihr =>
    obtain ⟨left, hleft⟩ := ihl
    obtain ⟨right, hright⟩ := ihr
    exact ⟨_, hleft.mul ht hop hright⟩
  | ofTerm h ih =>
    obtain ⟨e', he⟩ := ih
    exact ⟨e', .ofTerm he⟩
  | add hl ht hop hr ihl ihr =>
    obtain ⟨left, hleft⟩ := ihl
    obtain ⟨right, hright⟩ := ihr
    exact hleft.exists_join ht hright.expression

/-! ### Operators in the open -/

/-- The token is an operator. -/
def isOperator (t : Token) : Bool :=
  t.kind.operator?.isSome

/-- The token is a `+` or a `-`. -/
def isSign (t : Token) : Bool :=
  t.kind.operator?.any Operator.isAdditive

/-- The operators that stand in no tokens of a category, but in parentheses. -/
def Category.excludes : Category → Token → Bool
  | .value => isOperator
  | .term => isSign
  | .expression => fun _ => false

lemma excludes_of_not_operator (h : t.kind.operator? = none) (c : Category) :
    c.excludes t = false := by
  cases c <;> simp [Category.excludes, isOperator, isSign, h]

lemma isOperator_of_operator (h : t.kind = .operator op) : isOperator t = true := by
  simp [isOperator, h, Token.Kind.operator?]

lemma isSign_of_operator (h : t.kind = .operator op) : isSign t = op.isAdditive := by
  simp [isSign, h, Token.Kind.operator?]

lemma isOperator_of_isSign (h : isSign t = true) : isOperator t = true := by
  rw [isSign] at h
  rw [isOperator]
  cases hop : t.kind.operator? with
  | none => simp [hop] at h
  | some op => rfl

lemma countAt_isSign_eq_zero {d : Int} (h : Token.countAt isOperator d ts = 0) :
    Token.countAt isSign d ts = 0 := by
  have hle : Token.countAt isSign d ts ≤ Token.countAt isOperator d ts :=
    Token.countAt_le (fun _ ht => isOperator_of_isSign ht) d ts
  omega

lemma countAt_false (d : Int) (ts : List Token) : Token.countAt (fun _ => false) d ts = 0 := by
  induction ts generalizing d with
  | nil => rfl
  | cons t ts ih => simp [Token.countAt_cons, ih]

/-- A value shows no operators on its top level, and a term no `+` or `-`. -/
theorem Derives.countAt_excludes (h : Derives c ts e) : Token.countAt c.excludes 0 ts = 0 := by
  induction h with
  | number ht hx =>
    have := excludes_of_not_operator (by rw [ht]; rfl) .value
    simp [Token.countAt_cons, this]
  | group hl h hr ih =>
    apply Token.countAt_enclose hl _ _ h.balanced
    · exact excludes_of_not_operator (by rw [hl]; rfl) .value
    · exact excludes_of_not_operator (by rw [hr]; rfl) .value
  | ofValue h ih => exact countAt_isSign_eq_zero ih
  | @mul ts us t op left right hl ht hop hr ihl ihr =>
    have hsign : isSign t = false := by rw [isSign_of_operator ht, hop]
    have hright : Token.countAt isSign 0 us = 0 := countAt_isSign_eq_zero ihr
    rw [Token.countAt_append, hl.balanced.depth_eq, Token.countAt_cons, nesting_of_operator ht]
    simp [Category.excludes, hsign, hright, ← ihl]
  | ofTerm h ih => exact countAt_false _ _
  | add hl ht hop hr ihl ihr => exact countAt_false _ _

lemma Conventional.balanced (h : Conventional c ts e) : Balanced Token.nesting ts :=
  h.nests.balanced

lemma Conventional.countAt_excludes (h : Conventional c ts e) :
    Token.countAt c.excludes 0 ts = 0 := by
  obtain ⟨e', he⟩ := h.exists_derives
  exact he.countAt_excludes

/-! ### Taking conventional expressions apart -/

/-- The next narrower category. -/
def Category.narrower : Category → Category
  | .expression => .term
  | .term | .value => .value

lemma countAt_ne_zero {p : Token → Bool} (ht : t.kind = .operator op) (hp : p t = true)
    (hts : Balanced Token.nesting ts) (us : List Token) :
    Token.countAt p 0 (ts ++ t :: us) ≠ 0 := by
  rw [Token.countAt_split hp (nesting_of_operator ht) hts]
  omega

/-- Tokens are of the narrower category if they have none of its excluded operators on their top
level. -/
lemma Conventional.narrower (h : Conventional c ts e)
    (hts : Token.countAt c.narrower.excludes 0 ts = 0) : Conventional c.narrower ts e := by
  cases h with
  | number ht hx => exact .number ht hx
  | group hl h hr => exact .group hl h hr
  | ofValue h => exact h
  | mul hl ht hop hr =>
    exact absurd hts (countAt_ne_zero ht (isOperator_of_operator ht) hl.balanced _)
  | ofTerm h => exact h
  | add hl ht hop hr =>
    have hsign : isSign _ = true := (isSign_of_operator ht).trans hop
    exact absurd hts (countAt_ne_zero ht hsign hl.balanced _)

/-- So they are if they derive an expression, as they derive one only. -/
lemma Derives.narrower (h : Derives c ts e) (hts : Token.countAt c.narrower.excludes 0 ts = 0) :
    Derives c.narrower ts e := by
  obtain ⟨e', he'⟩ := h.exists_conventional
  obtain ⟨e'', he''⟩ := (he'.narrower hts).exists_derives
  rwa [h.unique he'']

lemma Conventional.value_cases (h : Conventional .value ts e) :
    (∃ t x, ts = [t] ∧ t.kind = .number ∧ Number.ofText? t.literal = some x ∧ e = .number x) ∨
    ∃ l r us, ts = l :: (us ++ [r]) ∧ l.kind = .leftParen ∧ r.kind = .rightParen ∧
      Conventional .expression us e := by
  cases h with
  | number ht hx => exact .inl ⟨_, _, rfl, ht, hx, rfl⟩
  | group hl h hr => exact .inr ⟨_, _, _, rfl, hl, hr, h⟩

lemma Conventional.of_number {x : Number} (h : Conventional .value [t] e)
    (hx : Number.ofText? t.literal = some x) : e = .number x := by
  rcases h.value_cases with ⟨t', x', hts, -, hx', rfl⟩ | ⟨l, r, us, hts, -, -, -⟩
  · obtain ⟨rfl, -⟩ := List.cons.inj hts
    rw [hx] at hx'
    cases hx'
    rfl
  · have := congrArg List.length hts
    simp at this

lemma Conventional.of_group (h : Conventional .value (l :: (ts ++ [r])) e) :
    Conventional .expression ts e := by
  rcases h.value_cases with ⟨t, x, hts, -, -, -⟩ | ⟨l', r', us, hts, -, -, he⟩
  · have := congrArg List.length hts
    simp at this
  · rw [(List.append_inj' (List.cons.inj hts).2 rfl).1]
    exact he

/-- Of the operators on the top level that are excluded from the narrower category, the last one
joins the two parts that it separates. -/
lemma Conventional.of_append (h : Conventional c (ts ++ t :: us) e) (ht : t.kind = .operator op)
    (hp : c.narrower.excludes t = true) (hts : Balanced Token.nesting ts)
    (hus : Token.countAt c.narrower.excludes 0 us = 0) :
    ∃ left right, Conventional c ts left ∧ Conventional c.narrower us right ∧
      e = .binary op left right t.span := by
  have hne := countAt_ne_zero ht hp hts us
  generalize hvs : ts ++ t :: us = vs at h hne
  cases h with
  | number ht hx => exact absurd (Conventional.number ht hx).countAt_excludes hne
  | group hl h hr => exact absurd (Conventional.group hl h hr).countAt_excludes hne
  | ofValue h => exact absurd h.countAt_excludes hne
  | mul hl ht' hop hr =>
    obtain ⟨rfl, rfl, rfl⟩ := Token.split_unique hvs hp (isOperator_of_operator ht')
      (nesting_of_operator ht) (nesting_of_operator ht') hts hl.balanced hus hr.countAt_excludes
    cases ht.symm.trans ht'
    exact ⟨_, _, hl, hr, rfl⟩
  | ofTerm h => exact absurd h.countAt_excludes hne
  | add hl ht' hop hr =>
    have hsign : isSign _ = true := (isSign_of_operator ht').trans hop
    obtain ⟨rfl, rfl, rfl⟩ := Token.split_unique hvs hp hsign
      (nesting_of_operator ht) (nesting_of_operator ht') hts hl.balanced hus hr.countAt_excludes
    cases ht.symm.trans ht'
    exact ⟨_, _, hl, hr, rfl⟩

/-- Tokens have one conventional expression. -/
theorem Conventional.unique (h : Conventional c ts e) (h' : Conventional c ts e') : e = e' := by
  induction h generalizing e' with
  | number ht hx => exact (h'.of_number hx).symm
  | group hl h hr ih => exact ih h'.of_group
  | ofValue h ih => exact ih (h'.narrower h.countAt_excludes)
  | mul hl ht hop hr ihl ihr =>
    obtain ⟨left', right', hl', hr', rfl⟩ :=
      h'.of_append ht (isOperator_of_operator ht) hl.balanced hr.countAt_excludes
    rw [ihl hl', ihr hr']
  | ofTerm h ih => exact ih (h'.narrower h.countAt_excludes)
  | add hl ht hop hr ihl ihr =>
    have hsign : isSign _ = true := (isSign_of_operator ht).trans hop
    obtain ⟨left', right', hl', hr', rfl⟩ := h'.of_append ht hsign hl.balanced hr.countAt_excludes
    rw [ihl hl', ihr hr']

/-! ### Where the expressions agree -/

/-- How many `+` and `-` stand on the top level of a list of tokens. -/
def signs (ts : List Token) : Nat :=
  Token.countAt isSign 0 ts

/-- Neither the top level nor any group has more than one `+` or `-` at its own depth. -/
structure SingleSigns (ts : List Token) : Prop where
  top : signs ts ≤ 1
  groups : ∀ vs, Token.IsGroup ts vs → signs vs ≤ 1

lemma singleSigns_number (ht : t.kind = .number) : SingleSigns [t] where
  top := by
    have : isSign t = false := excludes_of_not_operator (by rw [ht]; rfl) .term
    simp [signs, Token.countAt_cons, this]
  groups := by
    intro vs hvs
    exact absurd hvs Token.not_isGroup_singleton

lemma singleSigns_group_iff (hl : l.kind = .leftParen) (hr : r.kind = .rightParen)
    (hts : Balanced Token.nesting ts) : SingleSigns (l :: (ts ++ [r])) ↔ SingleSigns ts := by
  have htop : signs (l :: (ts ++ [r])) = 0 :=
    Token.countAt_enclose hl (excludes_of_not_operator (by rw [hl]; rfl) .term)
      (excludes_of_not_operator (by rw [hr]; rfl) .term) hts
  constructor
  · intro h
    constructor
    · exact h.groups ts ((Token.isGroup_enclose_iff hl hr hts).2 (.inl rfl))
    · intro vs hvs
      exact h.groups vs ((Token.isGroup_enclose_iff hl hr hts).2 (.inr hvs))
  · intro h
    constructor
    · rw [htop]
      exact Nat.zero_le 1
    · intro vs hvs
      rcases (Token.isGroup_enclose_iff hl hr hts).1 hvs with rfl | hvs
      · exact h.top
      · exact h.groups vs hvs

/-- An operator between parts that have no `+` and `-` on their top levels. -/
lemma singleSigns_append_iff (ht : t.kind = .operator op) (hts : Balanced Token.nesting ts)
    (hleft : signs ts = 0) (hright : signs us = 0) :
    SingleSigns (ts ++ t :: us) ↔ SingleSigns ts ∧ SingleSigns us := by
  have htop : signs (ts ++ t :: us) ≤ 1 := by
    rw [signs, Token.countAt_append, hts.depth_eq, Token.countAt_cons, nesting_of_operator ht]
    -- the only sign on the top level can be `t`
    rw [signs] at hleft hright
    simp only [hleft, Int.add_zero, hright]
    split <;> omega
  have hgroups {vs : List Token} :
      Token.IsGroup (ts ++ t :: us) vs ↔ Token.IsGroup ts vs ∨ Token.IsGroup us vs :=
    Token.isGroup_append_iff (by simp [ht]) (by simp [ht]) hts
  constructor
  · intro h
    constructor
    · refine ⟨by omega, ?_⟩
      intro vs hvs
      exact h.groups vs (hgroups.2 (.inl hvs))
    · refine ⟨by omega, ?_⟩
      intro vs hvs
      exact h.groups vs (hgroups.2 (.inr hvs))
  · rintro ⟨hl, hr⟩
    refine ⟨htop, ?_⟩
    intro vs hvs
    rcases hgroups.1 hvs with hvs | hvs
    · exact hl.groups vs hvs
    · exact hr.groups vs hvs

/-- Two expressions of the same tokens differ if the operators at their roots do: the operands on
the left are then made up of different numbers of tokens. -/
lemma left_ne_of_signs_lt {ts' us' : List Token} {t' : Token} {left left' : Expr}
    (h : ts ++ t :: us = ts' ++ t' :: us') (ht : t.kind = .operator op)
    (hleft : left.operators = ts.filterMap Token.operator?)
    (hleft' : left'.operators = ts'.filterMap Token.operator?)
    (hts' : Balanced Token.nesting ts') (hlt : signs ts < signs ts') : left ≠ left' := by
  rintro rfl
  rw [hleft] at hleft'
  rcases List.append_eq_append_iff.1 h with ⟨bs, rfl, hbs⟩ | ⟨bs, rfl, hbs⟩
  · cases bs with
    | nil => simp at hlt
    | cons b bs =>
      obtain ⟨rfl, -⟩ := List.cons.inj hbs
      have := congrArg List.length hleft'
      have hsome : t.operator? = some (op, t.span) := Token.operator?_eq_some_iff.2 ⟨ht, rfl⟩
      simp [hsome] at this
  · have := Token.countAt_append isSign 0 ts' bs
    rw [signs, signs] at hlt
    omega

/-- The expression that tokens derive is the conventional one exactly if no two of `+` and `-` stand
in one group at the same depth. -/
theorem Derives.eq_conventional_iff (h : Derives c ts e) (h' : Conventional c ts e') :
    e = e' ↔ SingleSigns ts := by
  induction h generalizing e' with
  | number ht hx =>
    rw [h'.of_number hx]
    exact iff_of_true rfl (singleSigns_number ht)
  | group hl h hr ih =>
    rw [singleSigns_group_iff hl hr h.balanced]
    exact ih h'.of_group
  | ofValue h ih => exact ih (h'.narrower h.countAt_excludes)
  | mul hl ht hop hr ihl ihr =>
    obtain ⟨left', right', hl', hr', rfl⟩ :=
      h'.of_append ht (isOperator_of_operator ht) hl.balanced hr.countAt_excludes
    rw [singleSigns_append_iff ht hl.balanced hl.countAt_excludes
      (countAt_isSign_eq_zero hr.countAt_excludes), ← ihl hl', ← ihr hr']
    simp
  | ofTerm h ih => exact ih (h'.narrower h.countAt_excludes)
  | @add ts us t op left right hl ht hop hr ihl ihr =>
    have hleft : signs ts = 0 := hl.countAt_excludes
    have hsign : isSign t = true := (isSign_of_operator ht).trans hop
    have hcount : signs (ts ++ t :: us) = signs ts + 1 + signs us :=
      Token.countAt_split hsign (nesting_of_operator ht) hl.balanced us
    by_cases hright : signs us = 0
    · -- the one sign on the top level is at both roots
      obtain ⟨left', right', hl', hr', rfl⟩ := h'.of_append ht hsign hl.balanced hright
      rw [singleSigns_append_iff ht hl.balanced hleft hright, ← ihl (hl'.narrower hleft),
        ← ihr (.ofTerm hr')]
      simp
    · -- the first sign is at one root and the last at the other
      refine iff_of_false ?_ ?_
      · generalize hvs : ts ++ t :: us = vs at h' hcount
        cases h' with
        | ofTerm h' =>
          have : signs vs = 0 := h'.countAt_excludes
          omega
        | @add ts' us' t' op' left' right' hl' ht' hop' hr' =>
          have hsign' : isSign t' = true := (isSign_of_operator ht').trans hop'
          have hlast : signs us' = 0 := hr'.countAt_excludes
          have hcount' : signs (ts' ++ t' :: us') = signs ts' + 1 + signs us' :=
            Token.countAt_split hsign' (nesting_of_operator ht') hl'.balanced us'
          intro heq
          injection heq with _ heq _ _
          exact left_ne_of_signs_lt hvs ht hl.nests.operators_eq hl'.nests.operators_eq
            hl'.balanced (by omega) heq
      · intro hsingle
        have := hsingle.top
        omega

/-! ### Texts -/

/-- A text is read as an expression if and only if it has a conventional expression, of which there
is one at most. The two are equal, places included, if and only if no parentheses, nor the text as a
whole, have two or more of `+` and `-` at their own depth. -/
theorem parse_eq_conventional_iff :
    (∀ s : String, (∃ e, (parse s).result = .ok e) ↔
      ∃ e', Conventional .expression (Cursor.ofText s).lexemes e') ∧
    (∀ (ts : List Token) (e e' : Expr), Conventional .expression ts e →
      Conventional .expression ts e' → e = e') ∧
    ∀ (s : String) (e e' : Expr), (parse s).result = .ok e →
      Conventional .expression (Cursor.ofText s).lexemes e' →
      (e = e' ↔ SingleSigns (Cursor.ofText s).lexemes) := by
  refine ⟨?_, ?_, ?_⟩
  · intro s
    simp only [parse_eq_ok_iff]
    constructor
    · rintro ⟨e, he⟩
      exact he.exists_conventional
    · rintro ⟨e', he⟩
      exact he.exists_derives
  · intro ts e e' h h'
    exact h.unique h'
  · intro s e e' h h'
    exact (parse_eq_ok_iff.1 h).eq_conventional_iff h'

theorem parse_eq_conventional_iff_chain :
    ∃ e e', (parse "9-(2-3-4)").result = .ok e ∧
      Conventional .expression (Cursor.ofText "9-(2-3-4)").lexemes e' ∧ e ≠ e' := by
  have he : (parse "9-(2-3-4)").result = .ok (.binary .sub (.number 9) (.binary .sub (.number 2)
      (.binary .sub (.number 3) (.number 4) ⟨6, 1⟩) ⟨4, 1⟩) ⟨1, 1⟩) := by decide +kernel
  have hlexemes : (Cursor.ofText "9-(2-3-4)").lexemes =
      [⟨.number, "9", 0⟩, ⟨.operator .sub, "-", 1⟩] ++ ⟨.leftParen, "(", 2⟩ ::
        ([⟨.number, "2", 3⟩, ⟨.operator .sub, "-", 4⟩, ⟨.number, "3", 5⟩,
          ⟨.operator .sub, "-", 6⟩, ⟨.number, "4", 7⟩] ++ ⟨.rightParen, ")", 8⟩ :: []) := by
    decide +kernel
  obtain ⟨e', he'⟩ := (parse_eq_conventional_iff.1 _).1 ⟨_, he⟩
  refine ⟨_, e', he, he', ?_⟩
  rw [ne_eq, parse_eq_conventional_iff.2.2 _ _ e' he he']
  intro hsingle
  have hle := hsingle.groups _ ⟨_, _, _, _, hlexemes, rfl, rfl, ?_⟩
  · exact absurd hle (by decide)
  · exact Balanced.of_forall (by decide)

end Calculator.Parsing
