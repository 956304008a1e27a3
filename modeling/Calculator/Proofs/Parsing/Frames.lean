import Calculator.Proofs.Parsing.Descent

/-!
# Calls and frames

Where the rules have calls in progress, the machine has frames on its stack. Each frame stands for
the calls that wait for what is read above it, and the state of the machine for all calls in
progress, `State.inProgress`. In this sense the machine does what the rules say,
`Descends.passes`: it wants a value whenever a call for one begins, with the same calls in progress
and the same reader, and it comes to the same end.
-/

namespace Calculator.Parsing

variable {r r' : Reader} {t : Token} {calls : List Rule} {rule : Rule} {task : Task}
  {ms : List Moment} {e left : Expr} {result : Except SyntaxError Expr} {frames : List Frame}

/-! ### Frames -/

/-- The calls that wait for what is read above a frame, the innermost first. A group is a value with
an expression in it. The right operand of a `+` or `-` is an expression, that of a `*` or `/`
belongs to the expression that the operator is in. -/
def Frame.waiting : Frame → List Rule
  | .group => [.expression, .value]
  | .operand _ op _ => if op.isAdditive then [.expression] else []

/-- The calls for which the frames stand, with the first of all, which is for the whole text. -/
def callsOf (frames : List Frame) : List Rule :=
  frames.flatMap Frame.waiting ++ [.expression]

namespace State

/-- The calls in progress, the innermost first. -/
def inProgress (st : State) : List Rule :=
  match st.wanted with
  | .value => .value :: callsOf st.frames
  | .operator _ => callsOf st.frames

/-- The calls in progress and the reader, where a value is wanted. -/
def entries (st : State) : List (List Rule × Reader) :=
  match st.wanted with
  | .value => [(st.inProgress, st.reader)]
  | .operator _ => []

@[simp] lemma entries_value (r : Reader) (frames : List Frame) :
    entries ⟨r, frames, .value⟩ = [(.value :: callsOf frames, r)] := rfl

@[simp] lemma entries_operator (r : Reader) (frames : List Frame) (left : Expr) :
    entries ⟨r, frames, .operator left⟩ = [] := rfl

/-- From a state on the machine wants values with these calls in progress and these readers, one
after another, and then takes the step. -/
inductive Passes : State → List (List Rule × Reader) → Progress → Prop where
  | step (st : State) : Passes st st.entries st.step
  | more {st st' : State} {entries : List (List Rule × Reader)} {p : Progress}
      (hstep : st.step = .more st') (h : Passes st' entries p) :
      Passes st (st.entries ++ entries) p

variable {st st' : State} {vs ws : List (List Rule × Reader)} {p : Progress}

lemma Passes.trans (h : st.Passes vs (.more st')) (h' : st'.Passes ws p) :
    st.Passes (vs ++ ws) p := by
  generalize hp : Progress.more st' = q at h
  induction h with
  | step st => exact .more hp.symm h'
  | more hstep h ih =>
    rw [List.append_assoc]
    exact .more hstep (ih hp)

lemma Passes.run_eq (h : st.Passes vs (.done r result)) : st.run = (r, result) := by
  generalize hp : Progress.done r result = q at h
  induction h with
  | step st => exact run_of_done hp.symm
  | more hstep h ih => rw [run_of_more hstep, ih hp]

lemma passes_of_step (h : st.step = p) : st.Passes st.entries p := by
  rw [← h]
  exact .step st

end State

/-! ### Tasks -/

namespace Task

/-- The state of the machine at the start of a task. -/
def start (r : Reader) (frames : List Frame) : Task → State
  | .call _ | .follow _ => ⟨r, frames, .value⟩
  | .goOn left => ⟨r, frames, .operator left⟩

/-- The step that the machine takes at the end of a task. -/
def outcome (task : Task) (r : Reader) (frames : List Frame) :
    Except SyntaxError Expr → Progress
  | .ok e =>
    if task.isForExpression then State.complete r e frames
    else .more (State.settle r e frames)
  | .error err => .done r (.error err)

/-- The calls in progress are those that the frames stand for. Where the task is for an expression,
no `*` or `/` waits for its right operand. -/
def Fits (calls : List Rule) (frames : List Frame) : Task → Prop
  | .call .value => calls = callsOf frames
  | .follow .value => calls = .value :: callsOf frames
  | .call .expression => .expression :: calls = callsOf frames ∧ IsSettled frames
  | .follow .expression | .goOn _ => calls = callsOf frames ∧ IsSettled frames

/-- What a task began with, if it is to follow the rule for a value. -/
def entries (calls : List Rule) (r : Reader) : Task → List (List Rule × Reader)
  | .follow .value => [(calls, r)]
  | _ => []

@[simp] lemma start_follow (r : Reader) (rule : Rule) :
    (follow rule).start r frames = ⟨r, frames, .value⟩ := rfl

@[simp] lemma start_goOn (r : Reader) (left : Expr) :
    (goOn left).start r frames = ⟨r, frames, .operator left⟩ := rfl

@[simp] lemma entries_call (calls : List Rule) (r : Reader) (rule : Rule) :
    (call rule).entries calls r = [] := rfl

@[simp] lemma entries_follow_value (calls : List Rule) (r : Reader) :
    (follow .value).entries calls r = [(calls, r)] := rfl

@[simp] lemma entries_goOn (calls : List Rule) (r : Reader) (left : Expr) :
    (goOn left).entries calls r = [] := rfl

@[simp] lemma outcome_error (task : Task) (r : Reader) (err : SyntaxError) :
    task.outcome r frames (.error err) = .done r (.error err) := rfl

@[simp] lemma outcome_goOn (r : Reader) (left : Expr) (result : Except SyntaxError Expr) :
    (goOn left).outcome r frames result = (call .expression).outcome r frames result := rfl

@[simp] lemma outcome_expression (r : Reader) (e : Expr) :
    (call .expression).outcome r frames (.ok e) = State.complete r e frames := rfl

lemma Fits.follow (h : (call rule).Fits calls frames) :
    (Task.follow rule).Fits (rule :: calls) frames := by
  cases rule with
  | value => exact congrArg _ h
  | expression => exact h

lemma Fits.operand {op : Operator} {span : Span} (h : (goOn left).Fits calls frames) :
    (call (.ofOperand op)).Fits calls (.operand left op span :: frames) := by
  obtain ⟨rfl, -⟩ := h
  cases hop : op.isAdditive with
  | true =>
    rw [Rule.ofOperand, if_pos hop]
    exact ⟨by simp [callsOf, Frame.waiting, hop], hop⟩
  | false =>
    rw [Rule.ofOperand, if_neg (by simp [hop])]
    simp [Fits, callsOf, Frame.waiting, hop]

lemma Fits.group (h : (Task.follow .value).Fits calls frames) :
    (call .expression).Fits calls (.group :: frames) :=
  ⟨congrArg _ h, trivial⟩

lemma outcome_value (r : Reader) (hframes : IsSettled frames) (e : Expr) :
    (call .value).outcome r frames (.ok e) = .more ((goOn e).start r frames) := by
  rw [outcome, if_neg (by simp [isForExpression]), State.settle_eq,
    Stack.settle_of_isSettled hframes]
  rfl

/-- When the right operand of an operator was read, it is put together with the left one. -/
lemma outcome_operand (r : Reader) (op : Operator) (left e : Expr) (span : Span)
    (frames : List Frame) :
    (call (.ofOperand op)).outcome r (.operand left op span :: frames) (.ok e) =
      .more ((goOn (.binary op left e span)).start r frames) := by
  cases hop : op.isAdditive with
  | true =>
    rw [Rule.ofOperand, if_pos hop]
    rfl
  | false =>
    rw [Rule.ofOperand, if_neg (by simp [hop]), outcome, if_neg (by simp [isForExpression]),
      State.settle_eq, Stack.settle_operand hop]
    rfl

end Task

/-! ### The machine follows the rules -/

namespace State

variable {r₁ : Reader}

lemma step_operator {op : Operator} (hn : r.next = (t, r₁)) (hk : t.kind = .operator op) :
    step ⟨r, frames, .operator left⟩ =
      .more ⟨r₁.note op t.offset, .operand left op t.span :: frames, .value⟩ := by
  simp only [step, stepOperator, hn, hk]

lemma step_leftParen (hn : r.next = (t, r₁)) (hk : t.kind = .leftParen) :
    step ⟨r, frames, .value⟩ = .more ⟨r₁, .group :: frames, .value⟩ := by
  simp only [step, stepValue, hn, hk]

lemma step_operand (hn : r.next = (t, r₁)) (hk : t.kind ≠ .leftParen) :
    step ⟨r, frames, .value⟩ = (Task.follow .value).outcome r₁ frames (r₁.operand t) := by
  rw [Reader.operand]
  cases hkind : t.kind with
  | leftParen => exact absurd hkind hk
  | number => cases hx : t.value? <;> simp only [step, stepValue, hn, hkind, hx] <;> rfl
  | _ => simp only [step, stepValue, hn, hkind, Task.outcome]

lemma step_stop (hn : r.next = (t, r₁)) (hparen : t.kind ≠ .rightParen)
    (hop : t.kind.operator? = none) :
    step ⟨r, frames, .operator left⟩ =
      (Task.goOn left).outcome r₁ frames (r₁.require .eof .missingOperator left t) := by
  rw [Reader.require]
  cases hkind : t.kind with
  | rightParen => exact absurd hkind hparen
  | operator op => simp [hkind, Token.Kind.operator?] at hop
  | eof =>
    simp only [step, stepOperator, hn, hkind]
    rfl
  | _ => simp [step, stepOperator, hn, hkind, Task.outcome]

lemma complete_nil (hn : r.next = (t, r₁)) (e : Expr) :
    complete r e [] = .done r₁ (r₁.require .eof .trailing e t) := by
  rw [Reader.require]
  by_cases hk : t.kind = .eof
  · simp only [complete, hn, if_pos hk]
  · simp only [complete, hn, if_neg hk]

lemma complete_group (hn : r.next = (t, r₁)) (e : Expr) (frames : List Frame) :
    complete r e (.group :: frames) =
      (Task.follow .value).outcome r₁ frames
        (r₁.require .rightParen (.unexpected .closingParen) e t) := by
  rw [Reader.require]
  by_cases hk : t.kind = .rightParen
  · simp only [complete, hn, if_pos hk]
    rfl
  · simp only [complete, hn, if_neg hk]
    rfl

end State

/-- The calls in progress and the reader, where a call for a value begins. -/
def Moment.entry? (m : Moment) : Option (List Rule × Reader) :=
  match m.act, m.calls with
  | .enter, .value :: _ => some (m.calls, m.reader)
  | _, _ => none

/-- The calls for a value that begin, one after another. -/
def entries (ms : List Moment) : List (List Rule × Reader) :=
  ms.filterMap Moment.entry?

@[simp] lemma entries_append (ms ns : List Moment) :
    entries (ms ++ ns) = entries ms ++ entries ns :=
  List.filterMap_append

@[simp] lemma entries_nextMoments (calls : List Rule) (r : Reader) :
    entries (nextMoments calls r) = [] := by
  rw [entries, List.filterMap_eq_nil_iff]
  intro m hm
  obtain ⟨⟨t, hact⟩, -⟩ := of_mem_nextMoments hm
  rw [Moment.entry?, hact]

lemma entries_call (ms : List Moment) (r' : Reader) :
    entries (⟨.enter, rule :: calls, r⟩ :: (ms ++ [⟨.leave r result, rule :: calls, r'⟩])) =
      (Task.follow rule).entries (rule :: calls) r ++ entries ms := by
  cases rule <;> simp [entries, List.filterMap_cons, Moment.entry?, Task.entries]

/-- The machine does what the rules say, whatever there is on its stack below the frames for the
calls in progress. -/
theorem Descends.passes (h : Descends calls task r ms r' result) (hfits : task.Fits calls frames) :
    (task.start r frames).Passes (task.entries calls r ++ entries ms)
      (task.outcome r' frames result) := by
  -- the frames change from call to call, but they always fit the calls in progress
  induction h generalizing frames with
  | call h ih =>
    rw [entries_call]
    exact ih hfits.follow
  | expression hv hrest ihv ihrest =>
    have hvalue := ihv hfits.1
    rw [Task.outcome_value _ hfits.2] at hvalue
    rw [entries_append]
    exact hvalue.trans (ihrest hfits)
  | expressionError hv ihv => exact ihv hfits.1
  | operator hn hk hright hrest ihright ihrest =>
    -- the operator waits in a frame until its right operand was read
    have hoperand := State.Passes.more (State.step_operator hn hk) (ihright hfits.operand)
    rw [Task.outcome_operand] at hoperand
    simpa using hoperand.trans (ihrest hfits)
  | operatorError hn hk hright ihright =>
    have hoperand := State.Passes.more (State.step_operator hn hk) (ihright hfits.operand)
    simpa using hoperand
  | rightParen hn hk =>
    rw [entries_append, entries_nextMoments]
    exact State.passes_of_step (State.step_rightParen hn hk)
  | stop hn hparen hop =>
    rw [entries_nextMoments]
    exact State.passes_of_step (State.step_stop hn hparen hop)
  | group hn hk he hclose ihe =>
    -- the expression in parentheses ends at the frame of its group
    have hgroup := State.Passes.more (State.step_leftParen hn hk) (ihe hfits.group)
    rw [Task.outcome_expression, State.complete_group hclose] at hgroup
    obtain rfl := hfits
    simpa using hgroup
  | groupError hn hk he ihe =>
    have hgroup := State.Passes.more (State.step_leftParen hn hk) (ihe hfits.group)
    obtain rfl := hfits
    simpa using hgroup
  | operand hn hk =>
    obtain rfl := hfits
    rw [entries_nextMoments]
    exact State.passes_of_step (State.step_operand hn hk)

/-- The machine reads the text as the rules do. -/
theorem Descent.passes {s : String} (h : Descent s ms r result) :
    (State.ofText s).Passes (entries ms) (.done r result) := by
  have hfits : (Task.call .expression).Fits [] [] := ⟨rfl, trivial⟩
  cases h with
  | finish he hn =>
    have hpasses := he.passes hfits
    rw [Task.outcome_expression, State.complete_nil hn] at hpasses
    rw [entries_append, entries_nextMoments, List.append_nil]
    exact hpasses
  | error he => exact he.passes hfits

/-- Reading a text rule by rule gives the result of the machine, and leaves the same trace. -/
theorem parse_eq_of_descent {s : String} (h : Descent s ms r result) :
    parse s = ⟨r.trace, result⟩ := by
  rw [parse, h.passes.run_eq]

end Calculator.Parsing
