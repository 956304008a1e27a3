import Calculator.Proofs.Parsing.Tracing
import Mathlib.Logic.Relation

/-!
# Rule by rule

An expression can be read by two rules that call each other. A value is a number, or an expression
in parentheses. An expression is a value, followed by operators with their right operands, which
are expressions behind `+` and `-` and values behind `*` and `/`. Behind an expression one token
too many is read: a closing parenthesis is put back for whoever called the rule, and the end of the
text is read again.

`Descends` tells the whole course of this: each call that begins or ends, each token that is read
and each one that is put back is a moment of it. Every text is read to an end in this way,
`exists_descent`.
-/

namespace Calculator.Parsing

/-! ### Moments -/

/-- The rules by which a text is read. -/
inductive Rule where
  /-- A value, followed by operators with their right operands. -/
  | expression
  /-- A number, or an expression in parentheses. -/
  | value
deriving DecidableEq

/-- The rule for the right operand of an operator. -/
def Rule.ofOperand (op : Operator) : Rule :=
  if op.isAdditive then .expression else .value

/-- What happens at a moment. -/
inductive Act where
  /-- The innermost call begins. -/
  | enter
  /-- A token is read, be it from the text or be it one that was put back. -/
  | read (t : Token)
  /-- The token that was just read is put back. -/
  | putBack
  /-- The innermost call, which began with the reader `start`, ends with a result. -/
  | leave (start : Reader) (result : Except SyntaxError Expr)

/-- A moment in the course of reading a text. -/
structure Moment where
  act : Act
  /-- The calls that are in progress, the innermost first. -/
  calls : List Rule
  /-- The reader after what happens. -/
  reader : Reader

/-- The moments at which the next token is read, and the white space before it. -/
def nextMoments (calls : List Rule) (r : Reader) : List Moment :=
  if h : r.read.1.kind = .whitespace then
    have := r.size_read_lt (by simp [h])
    ⟨.read r.read.1, calls, r.read.2⟩ :: nextMoments calls r.read.2
  else
    [⟨.read r.read.1, calls, r.read.2⟩]
termination_by r.size

/-! ### The course of a task -/

/-- What there is to do. -/
inductive Task where
  | call (rule : Rule)
  /-- Follow a rule that was called. -/
  | follow (rule : Rule)
  /-- Go on behind the left operand of the next operator. -/
  | goOn (left : Expr)

/-- The task is to read an expression, or the rest of one. -/
def Task.isForExpression : Task → Bool
  | .call rule | .follow rule => rule = .expression
  | .goOn _ => true

/-- What comes of a token that no group starts with, where a value is wanted. -/
def Reader.operand (r : Reader) (t : Token) : Except SyntaxError Expr :=
  match t.kind with
  | .number =>
    match t.value? with
    | some x => .ok (.number x)
    | none => .error (r.reject .invalidNumber t)
  | _ => .error (r.reject (.unexpected .operand) t)

/-- What comes of a complete expression at a token of this kind or else at a fault. -/
def Reader.require (r : Reader) (kind : Token.Kind) (fault : SyntaxError.Fault) (e : Expr)
    (t : Token) : Except SyntaxError Expr :=
  if t.kind = kind then .ok e else .error (r.reject fault t)

/-- The course that a task takes from a reader on, while the calls `calls` are in progress: the
moments of it, the reader after the last of them, and the result. -/
inductive Descends :
    List Rule → Task → Reader → List Moment → Reader → Except SyntaxError Expr → Prop where
  | call {calls : List Rule} {rule : Rule} {r r' : Reader} {ms : List Moment}
      {result : Except SyntaxError Expr}
      (h : Descends (rule :: calls) (.follow rule) r ms r' result) :
      Descends calls (.call rule) r
        (⟨.enter, rule :: calls, r⟩ :: (ms ++ [⟨.leave r result, rule :: calls, r'⟩])) r' result
  | expression {calls : List Rule} {r r₁ r₂ : Reader} {ms ns : List Moment} {e : Expr}
      {result : Except SyntaxError Expr} (hv : Descends calls (.call .value) r ms r₁ (.ok e))
      (hrest : Descends calls (.goOn e) r₁ ns r₂ result) :
      Descends calls (.follow .expression) r (ms ++ ns) r₂ result
  | expressionError {calls : List Rule} {r r₁ : Reader} {ms : List Moment} {err : SyntaxError}
      (hv : Descends calls (.call .value) r ms r₁ (.error err)) :
      Descends calls (.follow .expression) r ms r₁ (.error err)
  | operator {calls : List Rule} {r r₁ r₂ r₃ : Reader} {ms ns : List Moment} {t : Token}
      {op : Operator} {left right : Expr} {result : Except SyntaxError Expr}
      (hn : r.next = (t, r₁)) (hk : t.kind = .operator op)
      (hright : Descends calls (.call (.ofOperand op)) (r₁.note op t.offset) ms r₂ (.ok right))
      (hrest : Descends calls (.goOn (.binary op left right t.span)) r₂ ns r₃ result) :
      Descends calls (.goOn left) r (nextMoments calls r ++ (ms ++ ns)) r₃ result
  | operatorError {calls : List Rule} {r r₁ r₂ : Reader} {ms : List Moment} {t : Token}
      {op : Operator} {left : Expr} {err : SyntaxError}
      (hn : r.next = (t, r₁)) (hk : t.kind = .operator op)
      (hright : Descends calls (.call (.ofOperand op)) (r₁.note op t.offset) ms r₂ (.error err)) :
      Descends calls (.goOn left) r (nextMoments calls r ++ ms) r₂ (.error err)
  | rightParen {calls : List Rule} {r r₁ : Reader} {t : Token} {left : Expr}
      (hn : r.next = (t, r₁)) (hk : t.kind = .rightParen) :
      Descends calls (.goOn left) r
        (nextMoments calls r ++ [⟨.putBack, calls, r₁.putBack t⟩]) (r₁.putBack t) (.ok left)
  | stop {calls : List Rule} {r r₁ : Reader} {t : Token} {left : Expr}
      (hn : r.next = (t, r₁)) (hparen : t.kind ≠ .rightParen) (hop : t.kind.operator? = none) :
      Descends calls (.goOn left) r (nextMoments calls r) r₁
        (r₁.require .eof .missingOperator left t)
  | group {calls : List Rule} {r r₁ r₂ r₃ : Reader} {ms : List Moment} {t u : Token} {e : Expr}
      (hn : r.next = (t, r₁)) (hk : t.kind = .leftParen)
      (he : Descends calls (.call .expression) r₁ ms r₂ (.ok e)) (hclose : r₂.next = (u, r₃)) :
      Descends calls (.follow .value) r (nextMoments calls r ++ (ms ++ nextMoments calls r₂)) r₃
        (r₃.require .rightParen (.unexpected .closingParen) e u)
  | groupError {calls : List Rule} {r r₁ r₂ : Reader} {ms : List Moment} {t : Token}
      {err : SyntaxError} (hn : r.next = (t, r₁)) (hk : t.kind = .leftParen)
      (he : Descends calls (.call .expression) r₁ ms r₂ (.error err)) :
      Descends calls (.follow .value) r (nextMoments calls r ++ ms) r₂ (.error err)
  | operand {calls : List Rule} {r r₁ : Reader} {t : Token} (hn : r.next = (t, r₁))
      (hk : t.kind ≠ .leftParen) :
      Descends calls (.follow .value) r (nextMoments calls r) r₁ (r₁.operand t)

/-- The course of reading a text as an expression, which has to be followed by the end of the
text. -/
inductive Descent (s : String) : List Moment → Reader → Except SyntaxError Expr → Prop where
  | finish {r r' : Reader} {ms : List Moment} {t : Token} {e : Expr}
      (he : Descends [] (.call .expression) (.ofText s) ms r (.ok e)) (hn : r.next = (t, r')) :
      Descent s (ms ++ nextMoments [] r) r' (r'.require .eof .trailing e t)
  | error {r : Reader} {ms : List Moment} {err : SyntaxError}
      (he : Descends [] (.call .expression) (.ofText s) ms r (.error err)) :
      Descent s ms r (.error err)

variable {r r' : Reader} {t : Token} {calls : List Rule} {rule : Rule} {task : Task}
  {ms : List Moment} {m : Moment} {e left : Expr} {result : Except SyntaxError Expr}

/-! ### What happens to the reader -/

namespace Reader

/-- All that happens to a reader: a token is read, an operator is noted, or a closing parenthesis is
put back as soon as it was read. -/
inductive Step : Reader → Reader → Prop where
  | read (r : Reader) : Step r r.read.2
  | note (r : Reader) (op : Operator) (n : Nat) : Step r (r.note op n)
  | putBack (r : Reader) (hk : r.read.1.kind = .rightParen) : Step r (r.read.2.putBack r.read.1)

/-- Any number of steps. -/
def Leads (r r' : Reader) : Prop :=
  Relation.ReflTransGen Step r r'

lemma Leads.trans {r₁ r₂ r₃ : Reader} (h : r₁.Leads r₂) (h' : r₂.Leads r₃) : r₁.Leads r₃ :=
  Relation.ReflTransGen.trans h h'

lemma Step.leads (h : Step r r') : r.Leads r' :=
  .single h

lemma leads_next (hn : r.next = (t, r')) : r.Leads r' := by
  fun_induction Reader.next r with
  | case1 r hw hlt ih => exact (Step.read r).leads.trans (ih hn)
  | case2 r hw =>
    have hread := Step.read r
    rw [hn] at hread
    exact hread.leads

lemma leads_note {op : Operator} {n : Nat} (hn : r.next = (t, r')) : r.Leads (r'.note op n) :=
  (leads_next hn).trans (Step.note r' op n).leads

lemma leads_putBack (hn : r.next = (t, r')) (hk : t.kind = .rightParen) :
    r.Leads (r'.putBack t) := by
  fun_induction Reader.next r with
  | case1 r hw hlt ih => exact (Step.read r).leads.trans (ih hn)
  | case2 r hw =>
    have hback := Step.putBack r (by rw [hn]; exact hk)
    rw [hn] at hback
    exact hback.leads

lemma Step.size_le (h : Step r r') : r'.size ≤ r.size := by
  cases h with
  | read => exact r.size_read_le
  | note op n => exact le_rfl
  | putBack hk =>
    rw [size_putBack]
    exact r.size_read_lt (by simp [hk])

lemma Leads.size_le (h : r.Leads r') : r'.size ≤ r.size := by
  induction h with
  | refl => exact le_rfl
  | tail h hstep ih => exact hstep.size_le.trans ih

end Reader

lemma of_mem_nextMoments (hm : m ∈ nextMoments calls r) :
    (∃ t, m.act = .read t) ∧ m.calls = calls ∧ r.Leads m.reader := by
  fun_induction nextMoments calls r with
  | case1 r hw hlt ih =>
    rcases List.mem_cons.1 hm with rfl | hm
    · exact ⟨⟨_, rfl⟩, rfl, (Reader.Step.read r).leads⟩
    · obtain ⟨hact, hcalls, hleads⟩ := ih hm
      exact ⟨hact, hcalls, (Reader.Step.read r).leads.trans hleads⟩
  | case2 r hw =>
    obtain rfl := List.mem_singleton.1 hm
    exact ⟨⟨_, rfl⟩, rfl, (Reader.Step.read r).leads⟩

lemma Descends.leads (h : Descends calls task r ms r' result) : r.Leads r' := by
  induction h with
  | call h ih => exact ih
  | expression hv hrest ihv ihrest => exact ihv.trans ihrest
  | expressionError hv ihv => exact ihv
  | operator hn hk hright hrest ihright ihrest =>
    exact ((Reader.leads_note hn).trans ihright).trans ihrest
  | operatorError hn hk hright ihright => exact (Reader.leads_note hn).trans ihright
  | rightParen hn hk => exact Reader.leads_putBack hn hk
  | stop hn hparen hop => exact Reader.leads_next hn
  | group hn hk he hclose ihe =>
    exact ((Reader.leads_next hn).trans ihe).trans (Reader.leads_next hclose)
  | groupError hn hk he ihe => exact (Reader.leads_next hn).trans ihe
  | operand hn hk => exact Reader.leads_next hn

/-- The right operand of an operator is read behind the note that is made of the operator. -/
lemma Descends.leads_of_note {r₁ : Reader} {op : Operator} {n : Nat}
    (h : Descends calls task (r₁.note op n) ms r' result) (hn : r.next = (t, r₁)) : r.Leads r' :=
  (Reader.leads_note hn).trans h.leads

/-! ### Every course comes to an end -/

lemma Reader.kind_of_operand_eq_ok (h : r.operand t = .ok e) : t.kind = .number := by
  rw [Reader.operand] at h
  split at h
  · assumption
  · cases h

lemma Reader.of_require_eq_ok {kind : Token.Kind} {fault : SyntaxError.Fault}
    (h : r.require kind fault left t = .ok e) : t.kind = kind ∧ left = e := by
  rw [Reader.require] at h
  split at h
  · next hk => exact ⟨hk, Except.ok.inj h⟩
  · cases h

/-- A call that succeeds reads a token other than the end token first. -/
lemma Descends.exists_next (h : Descends calls (.call rule) r ms r' (.ok e)) :
    ∃ t r₁, r.next = (t, r₁) ∧ t.kind ≠ .eof ∧ r₁.Leads r' := by
  have hvalue {calls : List Rule} {r r' : Reader} {ms : List Moment} {e : Expr}
      (h : Descends calls (.follow .value) r ms r' (.ok e)) :
      ∃ t r₁, r.next = (t, r₁) ∧ t.kind ≠ .eof ∧ r₁.Leads r' := by
    generalize hresult : Except.ok e = result at h
    cases h with
    | group hn hk he hclose =>
      exact ⟨_, _, hn, by simp [hk], he.leads.trans (Reader.leads_next hclose)⟩
    | groupError hn hk he => cases hresult
    | operand hn hk =>
      exact ⟨_, _, hn, by simp [Reader.kind_of_operand_eq_ok hresult.symm], .refl⟩
  cases h with
  | call h =>
    cases rule with
    | value => exact hvalue h
    | expression =>
      cases h with
      | expression hv hrest =>
        cases hv with
        | call hv =>
          obtain ⟨t, r₁, hn, ht, hleads⟩ := hvalue hv
          exact ⟨t, r₁, hn, ht, hleads.trans hrest.leads⟩

lemma Descends.size_lt (h : Descends calls (.call rule) r ms r' (.ok e)) : r'.size < r.size := by
  obtain ⟨t, r₁, hn, ht, hleads⟩ := h.exists_next
  have hlt := r.size_next_lt (by rwa [hn])
  rw [hn] at hlt
  exact hleads.size_le.trans_lt hlt

/-- The task has a course from the reader on. -/
def Task.Ends (calls : List Rule) (task : Task) (r : Reader) : Prop :=
  ∃ ms r' result, Descends calls task r ms r' result

namespace Task

lemma ends_call_value (hcall : ∀ r' : Reader, r'.size < r.size →
    ∀ calls, (call .expression).Ends calls r') (calls : List Rule) :
    (call .value).Ends calls r := by
  rcases hn : r.next with ⟨t, r₁⟩
  by_cases hk : t.kind = .leftParen
  · have hlt := r.size_next_lt (by simp [hn, hk])
    rw [hn] at hlt
    obtain ⟨ms, r₂, _ | e, he⟩ := hcall r₁ hlt (.value :: calls)
    · exact ⟨_, _, _, .call (.groupError hn hk he)⟩
    · exact ⟨_, _, _, .call (.group hn hk he rfl)⟩
  · exact ⟨_, _, _, .call (.operand hn hk)⟩

lemma ends_call_expression (hvalue : ∀ calls, (call .value).Ends calls r)
    (hgoOn : ∀ r' : Reader, r'.size < r.size → ∀ calls left, (goOn left).Ends calls r')
    (calls : List Rule) : (call .expression).Ends calls r := by
  obtain ⟨ms, r₁, _ | e, hv⟩ := hvalue (.expression :: calls)
  · exact ⟨_, _, _, .call (.expressionError hv)⟩
  · obtain ⟨ns, r₂, result, hrest⟩ := hgoOn r₁ hv.size_lt (.expression :: calls) e
    exact ⟨_, _, _, .call (.expression hv hrest)⟩

lemma ends_goOn (hcall : ∀ r' : Reader, r'.size < r.size → ∀ calls rule, (call rule).Ends calls r')
    (hgoOn : ∀ r' : Reader, r'.size < r.size → ∀ calls left, (goOn left).Ends calls r')
    (calls : List Rule) (left : Expr) : (goOn left).Ends calls r := by
  rcases hn : r.next with ⟨t, r₁⟩
  by_cases hparen : t.kind = .rightParen
  · exact ⟨_, _, _, .rightParen hn hparen⟩
  · cases hop : t.kind.operator? with
    | none => exact ⟨_, _, _, .stop hn hparen hop⟩
    | some op =>
      have hk : t.kind = .operator op := by
        cases hk : t.kind <;> simp_all [Token.Kind.operator?]
      have hlt := r.size_next_lt (by simp [hn, hk])
      rw [hn] at hlt
      obtain ⟨ms, r₂, _ | right, hright⟩ := hcall (r₁.note op t.offset) hlt calls (.ofOperand op)
      · exact ⟨_, _, _, .operatorError hn hk hright⟩
      · obtain ⟨ns, r₃, result, hrest⟩ := hgoOn r₂ (hright.size_lt.trans hlt) calls
          (.binary op left right t.span)
        exact ⟨_, _, _, .operator hn hk hright hrest⟩

/-- Whatever the reader has ahead, every call has a course, and so has going on behind an
expression. The induction is on what the reader has ahead: a call that succeeds leaves less of it,
so that going on behind its result ends as well. -/
theorem ends (r : Reader) : (∀ calls rule, (call rule).Ends calls r) ∧
    ∀ calls left, (goOn left).Ends calls r := by
  induction hsize : r.size using Nat.strong_induction_on generalizing r with
  | h n ih =>
    subst hsize
    have hvalue := ends_call_value fun r' hlt calls => (ih r'.size hlt r' rfl).1 calls .expression
    have hgoOn (r' : Reader) (hlt : r'.size < r.size) := (ih r'.size hlt r' rfl).2
    constructor
    · intro calls rule
      cases rule with
      | expression => exact ends_call_expression hvalue hgoOn calls
      | value => exact hvalue calls
    · exact ends_goOn (fun r' hlt => (ih r'.size hlt r' rfl).1) hgoOn

end Task

/-- Reading a text rule by rule comes to an end. -/
theorem exists_descent (s : String) : ∃ ms r result, Descent s ms r result := by
  obtain ⟨ms, r, _ | e, he⟩ := (Task.ends (.ofText s)).1 [] .expression
  · exact ⟨_, _, _, .error he⟩
  · exact ⟨_, _, _, .finish he rfl⟩

end Calculator.Parsing
