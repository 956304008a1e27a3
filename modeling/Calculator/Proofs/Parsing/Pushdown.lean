import Calculator.Parsing.Machine
import Calculator.Proofs.Parsing.Reading

/-!
# Token by token

The steps in which an expression is put together depend on the text through its tokens only. A
stack of incomplete parts takes in one token at a time: `Stack.feed`. A closing parenthesis and the
end of the text complete all operators down to the innermost parentheses at once.

The main statement, `verdict_visible`, is that feeding the visible tokens of a text to the empty
stack gives what reading the text gives. All further statements on reading go through it.
-/

namespace Calculator.Parsing

/-- What was put together so far, wherever the tokens come from. -/
structure Stack where
  /-- The incomplete parts, the innermost first. -/
  frames : List Frame
  wanted : Wanted
deriving DecidableEq

/-- The outcome of taking in tokens. -/
inductive Verdict where
  | more (s : Stack)
  | accept (e : Expr)
  | reject (fault : SyntaxError.Fault) (t : Token)

/-- No `*` or `/` waits for its right operand. -/
def IsSettled : List Frame → Prop
  | .operand _ op _ :: _ => op.isAdditive = true
  | _ => True

namespace Stack

/-- Nothing was put together so far. -/
def empty : Stack :=
  ⟨[], .value⟩

/-- Take in a value. -/
def settle (value : Expr) (frames : List Frame) : Stack :=
  match frames with
  | .operand left op span :: outer =>
    if op.isAdditive then ⟨frames, .operator value⟩
    else ⟨outer, .operator (.binary op left value span)⟩
  | _ => ⟨frames, .operator value⟩

/-- Complete all operators down to the innermost parentheses. The frames outside of those are
left, if there are parentheses at all. -/
def close (e : Expr) : List Frame → Expr × Option (List Frame)
  | [] => (e, none)
  | .group :: outer => (e, some outer)
  | .operand left op span :: outer => close (.binary op left e span) outer

/-- Take in a token where a value is wanted. -/
def feedValue (frames : List Frame) (t : Token) : Verdict :=
  match t.kind with
  | .leftParen => .more ⟨.group :: frames, .value⟩
  | .number =>
    match t.value? with
    | some x => .more (settle (.number x) frames)
    | none => .reject .invalidNumber t
  | _ => .reject (.unexpected .operand) t

/-- Take in a token where an operator is wanted. -/
def feedOperator (left : Expr) (frames : List Frame) (t : Token) : Verdict :=
  match t.kind with
  | .eof =>
    match close left frames with
    | (e, none) => .accept e
    | (_, some _) => .reject (.unexpected .closingParen) t
  | .rightParen =>
    match close left frames with
    | (e, some outer) => .more (settle e outer)
    | (_, none) => .reject .trailing t
  | .operator op => .more ⟨.operand left op t.span :: frames, .value⟩
  | _ => .reject .missingOperator t

/-- Take in a token. -/
def feed (s : Stack) (t : Token) : Verdict :=
  match s.wanted with
  | .value => feedValue s.frames t
  | .operator left => feedOperator left s.frames t

/-- Take in tokens one after the other, up to the first that settles the matter. -/
def feedAll (s : Stack) : List Token → Verdict
  | [] => .more s
  | t :: ts =>
    match s.feed t with
    | .more s' => s'.feedAll ts
    | v => v

/-! ### Taking in a value -/

lemma settle_of_isSettled {frames : List Frame} (h : IsSettled frames) (e : Expr) :
    settle e frames = ⟨frames, .operator e⟩ := by
  fun_cases settle e frames with
  | case1 => rfl
  | case2 left op span outer hop => exact absurd h hop
  | case3 => rfl

lemma settle_operand {op : Operator} (h : op.isAdditive = false) (left e : Expr) (span : Span)
    (outer : List Frame) :
    settle e (.operand left op span :: outer) = ⟨outer, .operator (.binary op left e span)⟩ := by
  simp [settle, h]

/-! ### What a token does -/

variable {frames outer : List Frame} {left e : Expr} {t : Token}

lemma feed_leftParen (h : t.kind = .leftParen) :
    (⟨frames, .value⟩ : Stack).feed t = .more ⟨.group :: frames, .value⟩ := by
  simp [feed, feedValue, h]

lemma feed_number {x : Number} (h : t.kind = .number) (hx : t.value? = some x) :
    (⟨frames, .value⟩ : Stack).feed t = .more (settle (.number x) frames) := by
  simp [feed, feedValue, h, hx]

lemma feed_operator {op : Operator} (h : t.kind = .operator op) :
    (⟨frames, .operator left⟩ : Stack).feed t =
      .more ⟨.operand left op t.span :: frames, .value⟩ := by
  simp [feed, feedOperator, h]

lemma feed_eof_top (h : t.kind = .eof) (hc : close left frames = (e, none)) :
    (⟨frames, .operator left⟩ : Stack).feed t = .accept e := by
  simp [feed, feedOperator, h, hc]

lemma feed_eof_group (h : t.kind = .eof) (hc : close left frames = (e, some outer)) :
    (⟨frames, .operator left⟩ : Stack).feed t = .reject (.unexpected .closingParen) t := by
  simp [feed, feedOperator, h, hc]

lemma feed_rightParen_top (h : t.kind = .rightParen) (hc : close left frames = (e, none)) :
    (⟨frames, .operator left⟩ : Stack).feed t = .reject .trailing t := by
  simp [feed, feedOperator, h, hc]

lemma feed_rightParen_group (h : t.kind = .rightParen) (hc : close left frames = (e, some outer)) :
    (⟨frames, .operator left⟩ : Stack).feed t = .more (settle e outer) := by
  simp [feed, feedOperator, h, hc]

/-- All that a token can do to a stack that is not yet settled. -/
inductive Takes (t : Token) : Stack → Stack → Prop where
  | leftParen (frames : List Frame) (h : t.kind = .leftParen) :
      Takes t ⟨frames, .value⟩ ⟨.group :: frames, .value⟩
  | number (frames : List Frame) (x : Number) (h : t.kind = .number) (hx : t.value? = some x) :
      Takes t ⟨frames, .value⟩ (settle (.number x) frames)
  | rightParen (frames outer : List Frame) (left e : Expr) (h : t.kind = .rightParen)
      (hc : close left frames = (e, some outer)) :
      Takes t ⟨frames, .operator left⟩ (settle e outer)
  | operator (frames : List Frame) (left : Expr) (op : Operator) (h : t.kind = .operator op) :
      Takes t ⟨frames, .operator left⟩ ⟨.operand left op t.span :: frames, .value⟩

lemma Takes.of_feed {s s' : Stack} (h : s.feed t = .more s') : Takes t s s' := by
  rcases s with ⟨frames, _ | left⟩
  · simp only [feed] at h
    revert h
    fun_cases feedValue frames t with
    | case1 hk =>
      rintro ⟨⟩
      exact .leftParen frames hk
    | case2 hk x hx =>
      rintro ⟨⟩
      exact .number frames x hk hx
    | case3 => rintro ⟨⟩
    | case4 => rintro ⟨⟩
  · simp only [feed] at h
    revert h
    fun_cases feedOperator left frames t with
    | case1 => rintro ⟨⟩
    | case2 => rintro ⟨⟩
    | case3 hk e outer hc =>
      rintro ⟨⟩
      exact .rightParen frames outer left e hk hc
    | case4 => rintro ⟨⟩
    | case5 op hk =>
      rintro ⟨⟩
      exact .operator frames left op hk
    | case6 => rintro ⟨⟩

/-- Only the end of the text can complete an expression. -/
lemma of_feed_eq_accept {s : Stack} (h : s.feed t = .accept e) :
    ∃ frames left, s = ⟨frames, .operator left⟩ ∧ t.kind = .eof ∧
      close left frames = (e, none) := by
  rcases s with ⟨frames, _ | left⟩
  · simp only [feed] at h
    revert h
    fun_cases feedValue frames t <;> rintro ⟨⟩
  · simp only [feed] at h
    revert h
    fun_cases feedOperator left frames t with
    | case1 hk e hc =>
      rintro ⟨⟩
      exact ⟨frames, left, rfl, hk, hc⟩
    | case2 => rintro ⟨⟩
    | case3 => rintro ⟨⟩
    | case4 => rintro ⟨⟩
    | case5 => rintro ⟨⟩
    | case6 => rintro ⟨⟩

lemma feed_operand {op : Operator} {span : Span} (hc : t.kind = .eof ∨ t.kind = .rightParen) :
    (⟨.operand left op span :: outer, .operator e⟩ : Stack).feed t =
      (⟨outer, .operator (.binary op left e span)⟩ : Stack).feed t := by
  rcases hc with hc | hc <;> simp [feed, feedOperator, close, hc]

/-! ### What several tokens do -/

@[simp] lemma feedAll_nil (s : Stack) : s.feedAll [] = .more s := rfl

lemma feedAll_of_more {s s' : Stack} {ts : List Token} (h : s.feed t = .more s') :
    s.feedAll (t :: ts) = s'.feedAll ts := by
  simp [feedAll, h]

lemma feedAll_of_accept {s : Stack} {ts : List Token} (h : s.feed t = .accept e) :
    s.feedAll (t :: ts) = .accept e := by
  simp [feedAll, h]

lemma feedAll_of_reject {s : Stack} {u : Token} {ts : List Token} {fault : SyntaxError.Fault}
    (h : s.feed t = .reject fault u) : s.feedAll (t :: ts) = .reject fault u := by
  simp [feedAll, h]

/-- Tokens may be taken in in two portions. -/
theorem feedAll_append {s : Stack} (ts us : List Token) :
    s.feedAll (ts ++ us) =
      match s.feedAll ts with
      | .more s' => s'.feedAll us
      | v => v := by
  induction ts generalizing s with
  | nil => rfl
  | cons t ts ih =>
    rw [List.cons_append]
    cases h : s.feed t with
    | more s' => rw [feedAll_of_more h, feedAll_of_more h, ih]
    | accept e => rw [feedAll_of_accept h, feedAll_of_accept h]
    | reject fault u => rw [feedAll_of_reject h, feedAll_of_reject h]

lemma feedAll_append_of_more {s s' : Stack} {ts us : List Token} (h : s.feedAll ts = .more s') :
    s.feedAll (ts ++ us) = s'.feedAll us := by
  rw [feedAll_append, h]

end Stack

/-! ### Steps and tokens -/

/-- The result that a verdict stands for, on a text. -/
def Verdict.result? (source : String) : Verdict → Option (Except SyntaxError Expr)
  | .more _ => none
  | .accept e => some (.ok e)
  | .reject fault t => some (.error ⟨fault, t, source⟩)

/-- A state without its reader. -/
def State.stack (s : State) : Stack :=
  ⟨s.frames, s.wanted⟩

/-- What came of a step agrees with the verdict `v` on the tokens that were ahead before it. -/
def Progress.Agrees (source : String) (v : Verdict) : Progress → Prop
  | .more s => ∃ ts, s.reader.Reads source ts ∧ s.stack.feedAll ts = v
  | .done _ result => v.result? source = some result

namespace State

variable {r : Reader} {source : String} {ts : List Token} {frames : List Frame} {e left : Expr}

lemma stack_settle (r : Reader) (value : Expr) (frames : List Frame) :
    (settle r value frames).stack = Stack.settle value frames := by
  fun_cases settle r value frames <;> simp_all [stack, Stack.settle]

lemma reader_settle (r : Reader) (value : Expr) (frames : List Frame) :
    (settle r value frames).reader = r := by
  fun_cases settle r value frames <;> rfl

lemma complete_agrees {t : Token} (h : r.Reads source (t :: ts))
    (hc : t.kind = .eof ∨ t.kind = .rightParen) :
    (complete r e frames).Agrees source ((⟨frames, .operator e⟩ : Stack).feedAll (t :: ts)) := by
  fun_cases complete r e frames with
  | case1 t' r' hn hk =>
    obtain ⟨us, ⟨⟩, -, -, -⟩ := h.next hn
    rw [Stack.feedAll_of_accept (Stack.feed_eof_top hk rfl)]
    rfl
  | case2 t' r' hn hk =>
    obtain ⟨us, ⟨⟩, rfl, -, -⟩ := h.next hn
    rw [Stack.feedAll_of_reject (Stack.feed_rightParen_top (hc.resolve_left hk) rfl)]
    rfl
  | case3 outer t' r' hn hk =>
    obtain ⟨us, ⟨⟩, -, hmore, -⟩ := h.next hn
    rw [Stack.feedAll_of_more (Stack.feed_rightParen_group hk rfl)]
    refine ⟨ts, ?_, by rw [stack_settle]⟩
    rw [reader_settle]
    exact hmore (by simp [hk])
  | case4 outer t' r' hn hk =>
    obtain ⟨us, ⟨⟩, rfl, -, -⟩ := h.next hn
    rw [Stack.feedAll_of_reject (Stack.feed_eof_group (hc.resolve_right hk) rfl)]
    rfl
  | case5 left op span outer =>
    refine ⟨_, h, ?_⟩
    rw [stack, Stack.feedAll, Stack.feedAll, Stack.feed_operand hc]

lemma stepValue_agrees (h : r.Reads source ts) :
    (stepValue r frames).Agrees source ((⟨frames, .value⟩ : Stack).feedAll ts) := by
  fun_cases stepValue r frames with
  | case1 t r' hn hk =>
    obtain ⟨us, rfl, -, hmore, -⟩ := h.next hn
    rw [Stack.feedAll_of_more (Stack.feed_leftParen hk)]
    exact ⟨us, hmore (by simp [hk]), rfl⟩
  | case2 t r' hn hk x hx =>
    obtain ⟨us, rfl, -, hmore, -⟩ := h.next hn
    rw [Stack.feedAll_of_more (Stack.feed_number hk hx)]
    refine ⟨us, ?_, by rw [stack_settle]⟩
    rw [reader_settle]
    exact hmore (by simp [hk])
  | case3 t r' hn hk hx =>
    obtain ⟨us, rfl, rfl, -, -⟩ := h.next hn
    have hfeed : (⟨frames, .value⟩ : Stack).feed t = .reject .invalidNumber t := by
      simp [Stack.feed, Stack.feedValue, hk, hx]
    rw [Stack.feedAll_of_reject hfeed]
    rfl
  | case4 t r' hn hparen hnumber =>
    obtain ⟨us, rfl, rfl, -, -⟩ := h.next hn
    have hfeed : (⟨frames, .value⟩ : Stack).feed t = .reject (.unexpected .operand) t := by
      simp [Stack.feed, Stack.feedValue]
    rw [Stack.feedAll_of_reject hfeed]
    rfl

lemma stepOperator_agrees (h : r.Reads source ts) :
    (stepOperator r left frames).Agrees source ((⟨frames, .operator left⟩ : Stack).feedAll ts) := by
  fun_cases stepOperator r left frames with
  | case1 t r' hn hk =>
    obtain ⟨us, rfl, -, -, hend⟩ := h.next hn
    exact complete_agrees (hend hk) (.inl hk)
  | case2 t r' hn hk =>
    obtain ⟨us, rfl, -, hmore, -⟩ := h.next hn
    have hback : (r'.putBack t).Reads source (t :: us) :=
      (hmore (by simp [hk])).putBack (by simp [hk]) (by simp [hk])
    exact complete_agrees hback (.inr hk)
  | case3 t r' hn op hk =>
    obtain ⟨us, rfl, -, hmore, -⟩ := h.next hn
    rw [Stack.feedAll_of_more (Stack.feed_operator hk)]
    exact ⟨us, (hmore (by simp [hk])).note op t.offset, rfl⟩
  | case4 t r' hn heof hparen hop =>
    obtain ⟨us, rfl, rfl, -, -⟩ := h.next hn
    have hfeed : (⟨frames, .operator left⟩ : Stack).feed t = .reject .missingOperator t := by
      simp [Stack.feed, Stack.feedOperator]
    rw [Stack.feedAll_of_reject hfeed]
    rfl

/-- A step takes in what the stack takes in. -/
theorem step_agrees {s : State} (h : s.reader.Reads source ts) :
    s.step.Agrees source (s.stack.feedAll ts) := by
  rcases s with ⟨r, frames, _ | left⟩
  · exact stepValue_agrees h
  · exact stepOperator_agrees h

/-- All steps together take in what the stack takes in. -/
theorem run_agrees {s : State} (h : s.reader.Reads source ts) :
    (s.stack.feedAll ts).result? source = some s.run.2 := by
  fun_induction run s generalizing ts with
  | case1 s s' hs hlt ih =>
    have hstep := step_agrees h
    rw [hs] at hstep
    obtain ⟨us, hus, hfeed⟩ := hstep
    rw [← hfeed]
    exact ih hus
  | case2 s r result hs =>
    have hstep := step_agrees h
    rw [hs] at hstep
    exact hstep

end State

/-- Feeding the visible tokens of a text gives what reading the text gives. -/
theorem verdict_visible (s : String) :
    (Stack.empty.feedAll (Token.visible s)).result? s = some (parse s).result :=
  State.run_agrees (s := State.ofText s) (Reader.reads_ofText s)

end Calculator.Parsing
