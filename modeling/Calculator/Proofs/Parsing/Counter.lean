import Calculator.Proofs.Parsing.Pushdown
import Calculator.Proofs.Token.Numeral

/-!
# Diagnosis by counting

Whether a text is an expression, and what is wrong with it otherwise, is found in one pass by a
machine that builds nothing. It remembers whether a value or an operator is wanted and counts the
parentheses that are open. `Stack.counter` forgets all that a stack holds besides, and
`ruling_feed` says that the machine does on a token what the stack does on it.
-/

namespace Calculator.Parsing

/-- What has to come next. -/
inductive Phase where
  | value
  | operator
deriving DecidableEq

/-- The state of the counting machine. -/
structure Counter where
  phase : Phase
  /-- The number of parentheses that are open. -/
  depth : Nat
deriving DecidableEq

/-- What the counting machine says to a token. -/
inductive Ruling where
  | more (c : Counter)
  | accept
  | stop (fault : SyntaxError.Fault)
deriving DecidableEq

/-- What the counting machine says to a list of tokens. -/
inductive Diagnosis where
  | unfinished
  | fine
  | faulty (fault : SyntaxError.Fault) (t : Token)
deriving DecidableEq

namespace Counter

/-- A value is wanted, and nothing is open. -/
def start : Counter :=
  ⟨.value, 0⟩

/-- Go on by one token. -/
def next (c : Counter) (t : Token) : Ruling :=
  match c.phase, t.kind, c.depth with
  | .value, .number, depth =>
    if t.literal = "." then .stop .invalidNumber else .more ⟨.operator, depth⟩
  | .value, .leftParen, depth => .more ⟨.value, depth + 1⟩
  | .value, _, _ => .stop (.unexpected .operand)
  | .operator, .operator _, depth => .more ⟨.value, depth⟩
  | .operator, .rightParen, depth + 1 => .more ⟨.operator, depth⟩
  | .operator, .rightParen, 0 => .stop .trailing
  | .operator, .eof, 0 => .accept
  | .operator, .eof, _ + 1 => .stop (.unexpected .closingParen)
  | .operator, _, _ => .stop .missingOperator

/-- Go through a list of tokens, up to the first that settles the matter. -/
def run (c : Counter) : List Token → Diagnosis
  | [] => .unfinished
  | t :: ts =>
    match c.next t with
    | .more c' => c'.run ts
    | .accept => .fine
    | .stop fault => .faulty fault t

end Counter

/-! ### What the counter keeps of a stack -/

/-- The number of parentheses that are open. -/
def openGroups : List Frame → Nat
  | [] => 0
  | .group :: frames => openGroups frames + 1
  | .operand _ _ _ :: frames => openGroups frames

/-- A stack without what was put together. -/
def Stack.counter (s : Stack) : Counter :=
  match s.wanted with
  | .value => ⟨.value, openGroups s.frames⟩
  | .operator _ => ⟨.operator, openGroups s.frames⟩

def Verdict.ruling : Verdict → Ruling
  | .more s => .more s.counter
  | .accept _ => .accept
  | .reject fault _ => .stop fault

def Verdict.diagnosis : Verdict → Diagnosis
  | .more _ => .unfinished
  | .accept _ => .fine
  | .reject fault t => .faulty fault t

namespace Stack

variable {frames outer : List Frame} {e e' left : Expr} {t : Token}

lemma counter_settle (e : Expr) (frames : List Frame) :
    (settle e frames).counter = ⟨.operator, openGroups frames⟩ := by
  fun_cases settle e frames with
  | case1 => rfl
  | case2 => rfl
  | case3 => rfl

lemma openGroups_of_close_top (h : close e frames = (e', none)) : openGroups frames = 0 := by
  fun_induction close e frames with
  | case1 => rfl
  | case2 => cases h
  | case3 e left op span outer ih => exact ih h

lemma openGroups_of_close_group (h : close e frames = (e', some outer)) :
    openGroups frames = openGroups outer + 1 := by
  fun_induction close e frames with
  | case1 => cases h
  | case2 =>
    cases h
    rfl
  | case3 e left op span outer ih => exact ih h

/-- A token is only ever rejected on its own account. -/
lemma of_feed_eq_reject {s : Stack} {fault : SyntaxError.Fault} {u : Token}
    (h : s.feed t = .reject fault u) : u = t := by
  rcases s with ⟨frames, _ | left⟩
  · simp only [feed] at h
    revert h
    fun_cases feedValue frames t <;> rintro ⟨⟩ <;> rfl
  · simp only [feed] at h
    revert h
    fun_cases feedOperator left frames t <;> rintro ⟨⟩ <;> rfl

/-- The counter says to a token what the stack says, provided that the point alone is the number
token without a value. -/
theorem ruling_feed (s : Stack) (ht : t.kind = .number → (t.value? = none ↔ t.literal = ".")) :
    (s.feed t).ruling = s.counter.next t := by
  rcases s with ⟨frames, _ | left⟩
  · -- a value is wanted: the counting machine reads no number, and goes by the literal
    simp only [feed, counter]
    fun_cases feedValue frames t with
    | case1 hk => simp [Counter.next, hk, Verdict.ruling, counter, openGroups]
    | case2 hk x hx =>
      have hlit : t.literal ≠ "." := by
        intro hlit
        simp [(ht hk).2 hlit] at hx
      simp [Counter.next, hk, hlit, Verdict.ruling, counter_settle]
    | case3 hk hx => simp [Counter.next, hk, (ht hk).1 hx, Verdict.ruling]
    | case4 hparen hnumber => simp [Counter.next, Verdict.ruling]
  · -- an operator is wanted: of the frames only the number of open groups matters
    simp only [feed, counter]
    fun_cases feedOperator left frames t with
    | case1 hk e hc =>
      simp [Counter.next, hk, openGroups_of_close_top hc, Verdict.ruling]
    | case2 hk e outer hc =>
      simp [Counter.next, hk, openGroups_of_close_group hc, Verdict.ruling]
    | case3 hk e outer hc =>
      simp [Counter.next, hk, openGroups_of_close_group hc, Verdict.ruling, counter_settle]
    | case4 hk e hc =>
      simp [Counter.next, hk, openGroups_of_close_top hc, Verdict.ruling]
    | case5 op hk => simp [Counter.next, hk, Verdict.ruling, counter, openGroups]
    | case6 heof hparen hop =>
      cases hk : t.kind <;> simp_all [Counter.next, Verdict.ruling]

theorem diagnosis_feedAll (s : Stack) {ts : List Token}
    (hts : ∀ t ∈ ts, t.kind = .number → (t.value? = none ↔ t.literal = ".")) :
    (s.feedAll ts).diagnosis = s.counter.run ts := by
  induction ts generalizing s with
  | nil => rfl
  | cons t ts ih =>
    have hruling := ruling_feed s (hts t List.mem_cons_self)
    cases ht : s.feed t with
    | more s' =>
      rw [ht] at hruling
      rw [feedAll_of_more ht, Counter.run, ← hruling]
      apply ih s'
      intro u hu
      exact hts u (List.mem_cons_of_mem t hu)
    | accept e =>
      rw [ht] at hruling
      rw [feedAll_of_accept ht, Counter.run, ← hruling]
      rfl
    | reject fault u =>
      rw [ht] at hruling
      obtain rfl := of_feed_eq_reject ht
      rw [feedAll_of_reject ht, Counter.run, ← hruling]
      rfl

end Stack

/-! ### Faults -/

lemma Counter.kind_of_trailing {c : Counter} {t : Token} (h : c.next t = .stop .trailing) :
    t.kind = .rightParen := by
  revert h
  fun_cases Counter.next c t <;> simp_all

lemma Counter.kind_of_closingParen {c : Counter} {t : Token}
    (h : c.next t = .stop (.unexpected .closingParen)) : t.kind = .eof := by
  revert h
  fun_cases Counter.next c t <;> simp_all

lemma Counter.of_run_eq_faulty {c : Counter} {ts : List Token} {fault : SyntaxError.Fault}
    {t : Token} (h : c.run ts = .faulty fault t) :
    t ∈ ts ∧ ∃ c' : Counter, c'.next t = .stop fault := by
  induction ts generalizing c with
  | nil => cases h
  | cons u us ih =>
    rw [Counter.run] at h
    cases hu : c.next u with
    | more c' =>
      rw [hu] at h
      obtain ⟨hmem, hstop⟩ := ih h
      exact ⟨List.mem_cons_of_mem u hmem, hstop⟩
    | accept =>
      rw [hu] at h
      cases h
    | stop fault' =>
      rw [hu] at h
      cases h
      exact ⟨List.mem_cons_self, c, hu⟩

/-! ### Texts -/

/-- What the result of reading a text says about it. -/
def Diagnosis.ofResult : Except SyntaxError Expr → Diagnosis
  | .ok _ => .fine
  | .error e => .faulty e.fault e.token

lemma diagnosis_of_result? {s : String} {v : Verdict} {result : Except SyntaxError Expr}
    (h : v.result? s = some result) :
    v.diagnosis = .ofResult result ∧ ∀ e, result = .error e → e.source = s := by
  cases v with
  | more s' => cases h
  | accept e =>
    cases h
    exact ⟨rfl, by simp⟩
  | reject fault t =>
    cases h
    refine ⟨rfl, ?_⟩
    rintro e ⟨⟩
    rfl

lemma value?_of_visible {s : String} {t : Token} (ht : t ∈ Token.visible s)
    (hk : t.kind = .number) : t.value? = none ↔ t.literal = "." := by
  rcases Token.mem_visible_iff.1 ht with hmem | rfl
  · exact value?_eq_none_iff hmem hk
  · cases hk

/-- The counting machine, run over the visible tokens of a text, finds what reading the text finds:
that it is an expression, or which fault it has at which token. A text is refused as going on
behind the end only at a closing parenthesis, and a closing parenthesis is missed only at the end
of the text. -/
theorem run_counter_eq_ofResult (s : String) :
    Counter.start.run (Token.visible s) = .ofResult (parse s).result ∧
    ∀ e, (parse s).result = .error e → e.source = s ∧
      (e.fault = .trailing → e.token.literal = ")") ∧
      ∀ x, e.fault = .unexpected x →
        x.text = "a number or `(`" ∨
          x.text = "`)`" ∧ e.token.kind = .eof ∧ e.token.literal = "" := by
  obtain ⟨hdiagnosis, hsource⟩ := diagnosis_of_result? (verdict_visible s)
  have hrun : Counter.start.run (Token.visible s) = .ofResult (parse s).result := by
    rw [← hdiagnosis]
    symm
    apply Stack.diagnosis_feedAll Stack.empty
    intro t ht
    exact value?_of_visible ht
  refine ⟨hrun, ?_⟩
  intro e he
  rw [he] at hrun
  obtain ⟨hmem, c, hstop⟩ := Counter.of_run_eq_faulty hrun
  refine ⟨hsource e he, ?_, ?_⟩
  · intro hfault
    rw [hfault] at hstop
    exact Token.literal_of_rightParen hmem (Counter.kind_of_trailing hstop)
  · intro x hx
    cases x with
    | operand => exact .inl rfl
    | closingParen =>
      rw [hx] at hstop
      have heof := Counter.kind_of_closingParen hstop
      exact .inr ⟨rfl, heof, Token.literal_of_eof hmem heof⟩

/-- A group that is not closed, and one that was not opened. -/
theorem run_counter_eq_ofResult_group :
    let closing : Token := ⟨.rightParen, ")", 1⟩
    let ending : Token := ⟨.eof, "", 2⟩
    (parse "1)").result = .error ⟨.trailing, closing, "1)"⟩ ∧
    Counter.start.run (Token.visible "1)") = .ofResult (.error ⟨.trailing, closing, "1)"⟩) ∧
    closing.literal = ")" ∧
    (parse "(1").result = .error ⟨.unexpected .closingParen, ending, "(1"⟩ ∧
    (SyntaxError.Expected.closingParen.text = "a number or `(`" ∨
      SyntaxError.Expected.closingParen.text = "`)`" ∧ ending.kind = .eof ∧
        ending.literal = "") := by
  intro closing ending
  have hclosing : (parse "1)").result = .error ⟨.trailing, closing, "1)"⟩ := by decide +kernel
  have hending : (parse "(1").result = .error ⟨.unexpected .closingParen, ending, "(1"⟩ := by
    decide +kernel
  obtain ⟨hrun, hfault⟩ := run_counter_eq_ofResult "1)"
  rw [hclosing] at hrun
  obtain ⟨-, -, hopen⟩ := (run_counter_eq_ofResult "(1").2 _ hending
  exact ⟨hclosing, hrun, (hfault _ hclosing).2.1 rfl, hending, hopen _ rfl⟩

end Calculator.Parsing
