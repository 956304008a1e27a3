import Calculator.Proofs.Parsing.Moments

/-!
# What reading a text takes

How deep the calls are nested, and how many tokens are asked for, is bounded by the tokens of the
text: each call for an expression but the first belongs to an opening parenthesis, or to a `+` or
`-`. So does each reading of the end token but two: behind the last value it is read once for every
call for an expression that it ends, once where a closing parenthesis or the end of the text is
wanted, and a call that a closing parenthesis ends does not read it at all.
-/

namespace Calculator.Parsing

variable {s : String} {r r' : Reader} {t : Token} {calls : List Rule} {task : Task}
  {ms : List Moment} {e : Expr} {result : Except SyntaxError Expr}

/-! ### Tokens of the text -/

/-- What came from the text is no more than there is in it, of any class without the end token. -/
lemma Reader.Steady.countP_le {p : Token → Bool} (h : r.Steady s)
    (hp : p (Token.ending s) = false) :
    r.scanned.countP p ≤ (Token.tokens s).countP p := by
  obtain ⟨n, hn⟩ := h.complete
  have hcount := congrArg (List.countP p) hn
  have hzero : (List.replicate n (Token.ending s)).countP p = 0 := by
    simp [List.countP_replicate, hp]
  rw [List.countP_append, List.countP_append, hzero] at hcount
  omega

/-- Whether the token is the end token. -/
def isEnd (t : Token) : Bool :=
  t.kind = .eof

lemma not_isEnd (h : t.kind = .whitespace ∨ t.kind = .rightParen) : isEnd t = false := by
  rcases h with hk | hk <;> simp [isEnd, hk]

lemma countP_not_isEnd_tokens (s : String) :
    (Token.tokens s).countP (fun t => ¬ isEnd t) + 1 = (Token.tokens s).length := by
  obtain ⟨ts, hts, hne⟩ := Token.exists_tokens_eq s
  have hcount : ts.countP (fun t => ¬ isEnd t) = ts.length := by
    rw [List.countP_eq_length]
    intro t ht
    simp [isEnd, hne t ht]
  rw [hts, List.countP_append, hcount]
  simp [isEnd, Token.ending]

/-! ### Readings of the end token -/

namespace Reader

variable {r₁ r₂ : Reader} {m n : Nat}

/-- How often the end token was read. -/
def ends (r : Reader) : Nat :=
  r.scanned.countP isEnd

/-- How many `+` and `-` were read. -/
def signs (r : Reader) : Nat :=
  r.scanned.countP isSign

/-- From one reader to the other the end token is read at most `n` times more often than there are
signs. A token that was put back counts as well, because the end token is not read as long as it is
there. -/
def Takes (n : Nat) (r r' : Reader) : Prop :=
  r'.ends + r.signs + r'.pending.length ≤ r.ends + r'.signs + n

lemma Takes.mono (h : Takes m r r') (hle : m ≤ n) : Takes n r r' := by
  rw [Takes] at h ⊢
  omega

lemma Takes.trans (h : Takes m r r₁) (h' : Takes n r₁ r₂) : Takes (m + n) r r₂ := by
  rw [Takes] at h h' ⊢
  omega

lemma Takes.zero_trans (h : Takes 0 r r₁) (h' : Takes n r₁ r₂) : Takes n r r₂ :=
  (h.trans h').mono (Nat.zero_add n).le

lemma takes_note (r : Reader) (op : Operator) (k : Nat) :
    Takes n (r.note op k) r' ↔ Takes n r r' := by
  simp only [Takes, ends, signs, scanned_note]

namespace Steady

lemma ends_next (h : r.Steady s) (hn : r.next = (t, r')) :
    r'.ends = r.ends + if isEnd t then 1 else 0 :=
  h.countP_next hn fun _ => not_isEnd

lemma signs_next (h : r.Steady s) (hn : r.next = (t, r')) :
    r'.signs = r.signs + if isSign t then 1 else 0 :=
  h.countP_next hn fun _ => not_isSign

lemma takes_next (h : r.Steady s) (hn : r.next = (t, r')) :
    Takes (if isEnd t then 1 else 0) r r' := by
  have hends := h.ends_next hn
  have hsigns := h.signs_next hn
  rw [Takes, h.pending_next hn, List.length_nil]
  omega

lemma takes_zero_next (h : r.Steady s) (hn : r.next = (t, r')) (hk : t.kind ≠ .eof) :
    Takes 0 r r' := by
  have htakes := h.takes_next hn
  simpa [isEnd, hk] using htakes

lemma takes_one_next (h : r.Steady s) (hn : r.next = (t, r')) : Takes 1 r r' := by
  refine (h.takes_next hn).mono ?_
  split
  · exact le_rfl
  · exact Nat.zero_le 1

/-- Behind a sign the end token may be read once more. -/
lemma takes_of_sign (h : r.Steady s) (hn : r.next = (t, r₁)) (hsign : isSign t = true)
    (hk : t.kind ≠ .eof) (h₁ : Takes (n + 1) r₁ r₂) : Takes n r r₂ := by
  have hends : r₁.ends = r.ends := by simpa [isEnd, hk] using h.ends_next hn
  have hsigns : r₁.signs = r.signs + 1 := by simpa [hsign] using h.signs_next hn
  rw [Takes] at h₁ ⊢
  omega

/-- Where an expression ended at a closing parenthesis, the end token was not read. -/
lemma takes_of_rightParen (h : r₁.Steady s) (hended : r₁.Ended) (hn : r₁.next = (t, r₂))
    (hk : t.kind = .rightParen) (h₁ : Takes (n + 1) r r₁) : Takes n r r₂ := by
  have h₂ := h.takes_zero_next hn (by simp [hk])
  have hlength : 1 ≤ r₁.pending.length := by
    rcases h.pending with hp | ⟨u, hp, -⟩
    · have hend := AtEnd.kind_of_next ⟨hp, hended hp⟩ hn
      simp [hk] at hend
    · simp [hp]
  rw [Takes] at h₁ h₂ ⊢
  omega

end Steady

end Reader

/-- How often a task may read the end token, apart from once for each sign. -/
def Task.allowance (task : Task) : Except SyntaxError Expr → Nat
  | .ok _ => if task.isForExpression then 1 else 0
  | .error _ => 2

lemma Task.one_le_allowance (h : task.isForExpression) : 1 ≤ task.allowance result := by
  cases result with
  | ok e => exact (if_pos h).ge
  | error err => exact Nat.le_succ 1

/-- An operator and its right operand together take no more than a value. -/
lemma takes_operand {r₁ : Reader} {op : Operator} (hst : r.Steady s) (hn : r.next = (t, r₁))
    (hk : t.kind = .operator op)
    (h : Reader.Takes ((Task.call (.ofOperand op)).allowance result) (r₁.note op t.offset) r') :
    Reader.Takes ((Task.call .value).allowance result) r r' := by
  have hne : t.kind ≠ .eof := by simp [hk]
  rw [Reader.takes_note] at h
  cases hop : op.isAdditive with
  | false =>
    rw [Rule.ofOperand, if_neg (by simp [hop])] at h
    exact (hst.takes_zero_next hn hne).zero_trans h
  | true =>
    have hsign : isSign t = true := by rw [isSign_of_operator hk, hop]
    rw [Rule.ofOperand, if_pos hop] at h
    cases result with
    | ok e => exact hst.takes_of_sign hn hsign hne h
    | error err => exact (hst.takes_of_sign hn hsign hne h).mono (Nat.le_succ 1)

/-- The end of a group takes nothing if the group is closed. -/
lemma takes_closing {r₁ r₂ : Reader} (hst : r₁.Steady s) (hended : r₁.Ended)
    (hn : r₁.next = (t, r₂)) (h : Reader.Takes 1 r r₁) :
    Reader.Takes ((Task.follow .value).allowance
      (r₂.require .rightParen (.unexpected .closingParen) e t)) r r₂ := by
  by_cases hk : t.kind = .rightParen
  · rw [Reader.require, if_pos hk]
    exact hst.takes_of_rightParen hended hn hk h
  · rw [Reader.require, if_neg hk]
    exact h.trans (hst.takes_one_next hn)

lemma takes_operand_token {r₁ : Reader} (hst : r.Steady s) (hn : r.next = (t, r₁)) :
    Reader.Takes ((Task.follow .value).allowance (r₁.operand t)) r r₁ := by
  cases hresult : r₁.operand t with
  | ok e => exact hst.takes_zero_next hn (by simp [Reader.kind_of_operand_eq_ok hresult])
  | error err => exact (hst.takes_one_next hn).mono (Nat.le_succ 1)

/-- Every task keeps to its allowance. -/
theorem Descends.takes (h : Descends calls task r ms r' result) (hst : r.Steady s) :
    Reader.Takes (task.allowance result) r r' := by
  induction h with
  | call h ih => exact ih hst
  | expression hv hrest ihv ihrest =>
    exact Reader.Takes.zero_trans (ihv hst) (ihrest (hv.leads.steady hst))
  | expressionError hv ihv => exact ihv hst
  | operator hn hk hright hrest ihright ihrest =>
    have hvalue := takes_operand hst hn hk (ihright ((Reader.leads_note hn).steady hst))
    exact Reader.Takes.zero_trans hvalue (ihrest ((hright.leads_of_note hn).steady hst))
  | operatorError hn hk hright ihright =>
    exact takes_operand hst hn hk (ihright ((Reader.leads_note hn).steady hst))
  | rightParen hn hk =>
    have htakes := hst.takes_zero_next hn (by simp [hk])
    exact Nat.succ_le_succ htakes
  | stop hn hparen hop => exact (hst.takes_one_next hn).mono (Task.one_le_allowance rfl)
  | group hn hk he hclose ihe =>
    have hst₁ := hst.next hn
    have hleft := hst.takes_zero_next hn (by simp [hk])
    exact takes_closing (he.leads.steady hst₁) (he.ended hst₁ rfl rfl) hclose
      (hleft.zero_trans (ihe hst₁))
  | groupError hn hk he ihe =>
    have hleft := hst.takes_zero_next hn (by simp [hk])
    exact hleft.zero_trans (ihe (hst.next hn))
  | operand hn hk => exact takes_operand_token hst hn

namespace Descent

lemma takes (h : Descent s ms r result) : Reader.Takes 2 (.ofText s) r := by
  have hst := Reader.steady_ofText s
  cases h with
  | finish he hn =>
    exact Reader.Takes.trans (he.takes hst) ((he.leads.steady hst).takes_one_next hn)
  | error he => exact he.takes hst

/-- The tokens that came from the text, counted with each reading of the end token. -/
lemma length_scanned_le (h : Descent s ms r result) :
    r.scanned.length ≤ (Token.tokens s).length + (Token.tokens s).countP isSign + 1 := by
  -- the end token may be taken again for each sign, all others are taken once
  have hends : r.ends + r.pending.length ≤ 0 + r.signs + 2 := h.takes
  have hsigns : r.signs ≤ (Token.tokens s).countP isSign := h.steady.countP_le rfl
  have hothers :
      r.scanned.countP (fun t => ¬ isEnd t) ≤ (Token.tokens s).countP fun t => ¬ isEnd t :=
    h.steady.countP_le rfl
  have htokens := countP_not_isEnd_tokens s
  have hlength : r.scanned.length = r.ends + r.scanned.countP fun t => ¬ isEnd t :=
    List.length_eq_countP_add_countP isEnd
  omega

end Descent

/-- Every text is read rule by rule to an end. The calls for an expression that are in progress are
at most one more than the opening parentheses, `+` and `-` read so far, and the tokens taken from
the text are at most its tokens, one more for each `+` and `-`, and one besides. -/
theorem budget_of_descent (s : String) :
    (∃ ms r result, Descent s ms r result) ∧
    ∀ ms r result, Descent s ms r result →
      parse s = ⟨r.trace, result⟩ ∧
      (State.ofText s).Passes (entries ms) (.done r result) ∧
      (∀ m ∈ ms,
        (∀ start e, m.act = .leave start (.ok e) →
          start.cursor.offset < m.reader.cursor.offset) ∧
        m.calls.count .expression ≤ 1 + m.reader.scanned.countP opens ∧
        m.calls.count .expression ≤ 1 + (Token.tokens s).countP opens) ∧
      r.scanned.length ≤ (Token.tokens s).length + (Token.tokens s).countP isSign + 1 := by
  refine ⟨exists_descent s, ?_⟩
  intro ms r result h
  refine ⟨parse_eq_of_descent h, h.passes, ?_, h.length_scanned_le⟩
  intro m hm
  have hsound := h.sound m hm
  refine ⟨fun start e hact => (hsound.leave start e hact).1, hsound.depth, hsound.depth.trans ?_⟩
  exact Nat.add_le_add_left (hsound.steady.countP_le rfl) 1

end Calculator.Parsing
