import Calculator.Proofs.Calculation.Within
import Calculator.Proofs.Expr.ZeroDivision
import Calculator.Proofs.Parsing.Conventional

/-!
# Chains

Texts with operators between them are calculated from the values of these texts. With `+` and `-`,
where no text shows such a sign outside parentheses, all values are there before the sums and
differences are taken, which begins at the right end. With `*` and `/`, where each text is a number
or in parentheses, a product or quotient is taken as soon as its right operand has a value, which
begins at the left end. What fails first is what the chain fails with.
-/

namespace Calculator

variable {s t : String} {e : Expr} {op : Operator} {ts : List Token}

/-! ### Operands -/

/-- A text that is read as an expression and has no `+` or `-` outside parentheses. -/
structure IsAddend (t : String) : Prop where
  accepted : ∃ e, (parse t).result = .ok e
  signs_eq : Token.countAt Parsing.isSign 0 (Token.tokens t) = 0

/-- A text that is read as an expression and is one number, or one pair of parentheses with what is
between them. -/
structure IsFactor (t : String) : Prop where
  accepted : ∃ e, (parse t).result = .ok e
  shape : (∃ n, (Cursor.ofText t).lexemes = [n] ∧ n.kind = .number) ∨
    ∃ l ts r, (Cursor.ofText t).lexemes = l :: (ts ++ [r]) ∧ l.kind = .leftParen ∧
      r.kind = .rightParen ∧ Balanced Token.nesting ts

lemma countAt_isSign_lexemes (t : String) :
    Token.countAt Parsing.isSign 0 (Cursor.ofText t).lexemes =
      Token.countAt Parsing.isSign 0 (Token.tokens t) := by
  rw [Token.tokens_eq, Cursor.lexemes, Token.countAt_filter]
  intro u _ hu
  have hkind : u.kind = .whitespace ∨ u.kind = .eof := by
    by_cases hw : u.kind = .whitespace
    · exact .inl hw
    · exact .inr (by simpa [hw] using hu)
  rcases hkind with hkind | hkind
  · exact ⟨by rw [Parsing.isSign, hkind]; rfl, by rw [Token.nesting, hkind]; rfl⟩
  · exact ⟨by rw [Parsing.isSign, hkind]; rfl, by rw [Token.nesting, hkind]; rfl⟩

open Parsing

lemma IsAddend.exists_derives (h : IsAddend t) :
    ∃ e, Derives .term (Cursor.ofText t).lexemes e := by
  obtain ⟨e, he⟩ := h.accepted
  refine ⟨e, (parse_eq_ok_iff.1 he).narrower ?_⟩
  rw [← h.signs_eq, ← countAt_isSign_lexemes]
  rfl

lemma IsFactor.countAt_eq (h : IsFactor t) :
    Token.countAt isOperator 0 (Cursor.ofText t).lexemes = 0 := by
  rcases h.shape with ⟨n, hlexemes, hn⟩ | ⟨l, ts, r, hlexemes, hl, hr, hts⟩
  · have : isOperator n = false := excludes_of_not_operator (by rw [hn]; rfl) .value
    simp [hlexemes, Token.countAt_cons, this]
  · rw [hlexemes]
    exact Token.countAt_enclose hl (excludes_of_not_operator (by rw [hl]; rfl) .value)
      (excludes_of_not_operator (by rw [hr]; rfl) .value) hts

lemma IsFactor.isAddend (h : IsFactor t) : IsAddend t where
  accepted := h.accepted
  signs_eq := by rw [← countAt_isSign_lexemes, countAt_isSign_eq_zero h.countAt_eq]

lemma IsFactor.exists_derives (h : IsFactor t) :
    ∃ e, Derives .value (Cursor.ofText t).lexemes e := by
  obtain ⟨e, he⟩ := h.isAddend.exists_derives
  exact ⟨e, he.narrower h.countAt_eq⟩

/-! ### Texts with operators between them -/

/-- A text with operators and further texts behind it. -/
def chainText (t : String) (links : List (Operator × String)) : String :=
  links.foldl (fun s l => s ++ l.1.text ++ l.2) t

/-- An operator of a chain, with all that comes before it and the text that comes next. -/
structure ChainLink where
  before : String
  op : Operator
  operand : String

/-- The operators of a chain, each in its place. -/
def chainLinks (t : String) : List (Operator × String) → List ChainLink
  | [] => []
  | (op, u) :: links => ⟨t, op, u⟩ :: chainLinks (t ++ op.text ++ u) links

namespace ChainLink

/-- The place of the operator. -/
def place (l : ChainLink) : Span :=
  ⟨l.before.utf8ByteSize, 1⟩

/-- The value of the operand in the chain `s`. -/
def calculate (s : String) (l : ChainLink) : Except Failure Number :=
  calculateWithin s (l.before ++ l.op.text) l.operand

/-- The operator in the chain `s`, with the value of its operand. -/
def summand (s : String) (l : ChainLink) : Except Failure (Operator × Number) := do
  let y ← l.calculate s
  return (l.op, y)

/-- One step along the chain `s`: first the operand gets its value, and then the operator is applied
to `x`, the value of all that comes before it, and to this value. -/
def apply (s : String) (x : Number) (l : ChainLink) : Except Failure Number := do
  let y ← l.calculate s
  l.op.applyWithin s l.place x y

end ChainLink

/-- Numbers with operators between them, taken together from the right end. -/
def foldRight : Number → List (Operator × Number) → Number
  | x, [] => x
  | x, (op, y) :: ys => op.arith x (foldRight y ys)

/-! ### The expression of a chain -/

namespace ChainLink

/-- An operator of the chain `s`, additive or not, among the tokens of the chain. -/
structure Reads (s : String) (additive : Bool) (c : Category) (l : ChainLink) (k : Link) :
    Prop where
  op_eq : k.op = l.op
  isAdditive_eq : l.op.isAdditive = additive
  sign_eq : k.sign = ⟨.operator l.op, l.op.text, l.before.utf8ByteSize⟩
  derives : Derives c k.tokens k.tree
  evalIn_eq : k.tree.evalIn s = l.calculate s

end ChainLink

variable {additive : Bool} {c : Category} {ls : List ChainLink} {ks : List Link}
  {links : List (Operator × String)}

lemma ChainLink.Reads.span_eq {l : ChainLink} {k : Link} (h : l.Reads s additive c k) :
    k.sign.span = l.place := by
  have hsize : l.op.text.utf8ByteSize = 1 := by cases l.op <;> rfl
  rw [h.sign_eq, Token.span, hsize, ChainLink.place]

lemma derives_of_reads (h : List.Forall₂ (ChainLink.Reads s additive c) ls ks) :
    ∀ k ∈ ks, k.sign.kind = .operator k.op ∧ k.op.isAdditive = additive ∧
      Derives c k.tokens k.tree := by
  induction h with
  | nil => simp
  | cons hk h ih =>
    refine List.forall_mem_cons.2 ⟨⟨?_, ?_, hk.derives⟩, ih⟩
    · rw [hk.sign_eq, hk.op_eq]
    · rw [hk.op_eq, hk.isAdditive_eq]

lemma lexemes_operator (t : String) (op : Operator) (u : String) :
    (Cursor.ofText (t ++ op.text ++ u)).lexemes =
      (Cursor.ofText t).lexemes ++ ⟨.operator op, op.text, t.utf8ByteSize⟩ ::
        (Cursor.ofText u).lexemes.map (Token.shift (t ++ op.text).utf8ByteSize) := by
  have hop : Token.Kind.ofSymbol? op.symbol = some (.operator op) := by cases op <;> rfl
  have htext : (t ++ op.text ++ u).toList = t.toList ++ op.symbol :: u.toList := by
    simp [Operator.text]
  have hsize : (t ++ op.text).utf8ByteSize = String.utf8Len t.toList + op.symbol.utf8Size := by
    simp [← String.utf8Len_toList, Operator.text]
  rw [Cursor.ofText, htext, Cursor.lexemes_append_symbol hop, Cursor.ofText, Cursor.ofText,
    ← Cursor.lexemes_add, hsize, ← String.utf8Len_toList, Nat.zero_add, Nat.zero_add]
  rfl

/-- The tokens of a chain are those of its parts, and each part has its own expression there. -/
lemma exists_reads (s t : String) (h : ∀ l ∈ links, l.1.isAdditive = additive ∧
      ∃ e, Derives c (Cursor.ofText l.2).lexemes e) :
    ∃ ks, List.Forall₂ (ChainLink.Reads s additive c) (chainLinks t links) ks ∧
      (Cursor.ofText (chainText t links)).lexemes = chain (Cursor.ofText t).lexemes ks := by
  induction links generalizing t with
  | nil => exact ⟨[], .nil, by simp [chainText, chain]⟩
  | cons l links ih =>
    obtain ⟨op, u⟩ := l
    obtain ⟨⟨hop, e, he⟩, hlinks⟩ := List.forall_mem_cons.1 h
    obtain ⟨ks, hks, hlexemes⟩ := ih (t ++ op.text ++ u) hlinks
    let n := (t ++ op.text).utf8ByteSize
    let k : Link := ⟨⟨.operator op, op.text, t.utf8ByteSize⟩, op,
      (Cursor.ofText u).lexemes.map (Token.shift n), e.shift n⟩
    refine ⟨k :: ks, .cons ⟨rfl, hop, rfl, he.shift n, evalIn_shift_of_derives he s _⟩ hks, ?_⟩
    change (Cursor.ofText (chainText (t ++ op.text ++ u) links)).lexemes = _
    rw [hlexemes, lexemes_operator]
    simp [chain, k, n]

/-! ### The value of a chain -/

lemma Operator.applyWithin_of_isAdditive (h : op.isAdditive = true) (s : String) (place : Span)
    (x y : Number) : op.applyWithin s place x y = pure (op.arith x y) := by
  have hsome : op.apply x y = some (op.arith x y) := by
    rw [apply_eq_some_iff]
    refine ⟨?_, rfl⟩
    rintro ⟨rfl, -⟩
    cases h
  rw [applyWithin, hsome]
  rfl

lemma evalIn_nestRight (h : List.Forall₂ (ChainLink.Reads s true c) ls ks) (e : Expr) :
    (nestRight e ks).evalIn s = e.evalIn s >>= fun x =>
      ls.mapM (ChainLink.summand s) >>= fun ys => pure (foldRight x ys) := by
  induction h generalizing e with
  | nil => simp [nestRight, foldRight]
  | cons hk h ih =>
    rw [nestRight, Expr.evalIn_binary, ih, hk.evalIn_eq, hk.op_eq]
    simp [ChainLink.summand, foldRight, Operator.applyWithin_of_isAdditive hk.isAdditive_eq]

lemma evalIn_nestLeft (h : List.Forall₂ (ChainLink.Reads s additive c) ls ks) (e : Expr) :
    (nestLeft e ks).evalIn s = e.evalIn s >>= fun x => ls.foldlM (ChainLink.apply s) x := by
  induction h generalizing e with
  | nil => simp [nestLeft]
  | @cons l k ls ks hk h ih =>
    change (nestLeft (.binary k.op e k.tree k.sign.span) ks).evalIn s = _
    rw [ih, Expr.evalIn_binary, hk.evalIn_eq, hk.op_eq, hk.span_eq]
    simp [ChainLink.apply]

lemma calculate_sum (ht : IsAddend t)
    (hlinks : ∀ l ∈ links, l.1.isAdditive = true ∧ IsAddend l.2) (hs : s = chainText t links) :
    calculate s = calculateWithin s "" t >>= fun x =>
      (chainLinks t links).mapM (ChainLink.summand s) >>= fun ys => pure (foldRight x ys) := by
  obtain ⟨e, he⟩ := ht.exists_derives
  obtain ⟨ks, hks, hlexemes⟩ := exists_reads s t
    fun l hl => ⟨(hlinks l hl).1, (hlinks l hl).2.exists_derives⟩
  have hchain := he.chain_nestRight (derives_of_reads hks)
  rw [← hlexemes, ← hs] at hchain
  rw [calculate_of_derives hchain, evalIn_nestRight hks, evalIn_of_derives he]

lemma calculate_product (ht : IsFactor t)
    (hlinks : ∀ l ∈ links, l.1.isAdditive = false ∧ IsFactor l.2) (hs : s = chainText t links) :
    calculate s = calculateWithin s "" t >>= fun x =>
      (chainLinks t links).foldlM (ChainLink.apply s) x := by
  obtain ⟨e, he⟩ := ht.exists_derives
  obtain ⟨ks, hks, hlexemes⟩ := exists_reads s t
    fun l hl => ⟨(hlinks l hl).1, (hlinks l hl).2.exists_derives⟩
  have hchain := he.ofValue.chain_nestLeft (derives_of_reads hks)
  rw [← hlexemes, ← hs] at hchain
  rw [calculate_of_derives hchain, evalIn_nestLeft hks, evalIn_of_derives he]

/-- A sum is computed from its right end, after the values of all summands were found from left to
right. A product is computed from its left end, and each factor when it is needed. A text that is
read as an expression fails with divisions by zero only. -/
theorem calculate_chain :
    (∀ (t s : String) (links : List (Operator × String)), IsAddend t →
      (∀ l ∈ links, l.1.isAdditive = true ∧ IsAddend l.2) → s = chainText t links →
      calculate s = do
        let x ← calculateWithin s "" t
        let ys ← (chainLinks t links).mapM (ChainLink.summand s)
        return foldRight x ys) ∧
    (∀ (t s : String) (links : List (Operator × String)), IsFactor t →
      (∀ l ∈ links, l.1.isAdditive = false ∧ IsFactor l.2) → s = chainText t links →
      calculate s = do
        let x ← calculateWithin s "" t
        (chainLinks t links).foldlM (ChainLink.apply s) x) ∧
    ∀ (t : String) (f : Failure), (∃ e, (parse t).result = .ok e) → calculate t = .error f →
      ∃ d, f = .divisionByZero d := by
  refine ⟨?_, ?_, ?_⟩
  · intro t s links ht hlinks hs
    exact calculate_sum ht hlinks hs
  · intro t s links ht hlinks hs
    exact calculate_product ht hlinks hs
  · intro t f ht h
    exact exists_divisionByZero ht h

theorem calculate_chain_quotients :
    calculate "8-(1/0)+2/0" = .error (.divisionByZero ⟨⟨4, 1⟩, 1, some "8-(1/0)+2/0"⟩) ∧
      calculate "8/(4-4)*(1/0)" = .error (.divisionByZero ⟨⟨1, 1⟩, 8, some "8/(4-4)*(1/0)"⟩) := by
  have hnumber : IsFactor "8" :=
    ⟨⟨.number 8, by decide +kernel⟩, .inl ⟨⟨.number, "8", 0⟩, by decide +kernel, rfl⟩⟩
  have hzero : IsFactor "(4-4)" :=
    ⟨⟨.binary .sub (.number 4) (.number 4) ⟨2, 1⟩, by decide +kernel⟩,
      .inr ⟨⟨.leftParen, "(", 0⟩,
        [⟨.number, "4", 1⟩, ⟨.operator .sub, "-", 2⟩, ⟨.number, "4", 3⟩],
        ⟨.rightParen, ")", 4⟩, by decide +kernel, rfl, rfl, Balanced.of_forall (by decide)⟩⟩
  have hgroup : IsFactor "(1/0)" :=
    ⟨⟨.binary .div (.number 1) (.number 0) ⟨2, 1⟩, by decide +kernel⟩,
      .inr ⟨⟨.leftParen, "(", 0⟩,
        [⟨.number, "1", 1⟩, ⟨.operator .div, "/", 2⟩, ⟨.number, "0", 3⟩],
        ⟨.rightParen, ")", 4⟩, by decide +kernel, rfl, rfl, Balanced.of_forall (by decide)⟩⟩
  have hquotient : IsAddend "2/0" :=
    ⟨⟨.binary .div (.number 2) (.number 0) ⟨1, 1⟩, by decide +kernel⟩, by decide +kernel⟩
  constructor
  · rw [calculate_chain.1 "8" _ [(.sub, "(1/0)"), (.add, "2/0")] hnumber.isAddend
      (by simp [Operator.isAdditive, hgroup.isAddend, hquotient]) (by decide +kernel)]
    decide +kernel
  · rw [calculate_chain.2.1 "8" _ [(.div, "(4-4)"), (.mul, "(1/0)")] hnumber
      (by simp [Operator.isAdditive, hzero, hgroup]) (by decide +kernel)]
    decide +kernel

end Calculator
