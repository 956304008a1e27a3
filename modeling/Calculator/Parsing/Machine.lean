import Calculator.Expr.Basic
import Calculator.Parsing.Reader

/-!
# Putting an expression together

An expression is read from left to right in one pass. What has been opened and not yet closed is
kept on a stack of frames: parentheses, and operators whose right operand is still to come. In
between, either a value is wanted or an operator.

The right operand of `+` and `-` is all that follows, up to the end of the text or of the group,
so that a chain of them nests to the right. The right operand of `*` and `/` is the next value
alone, so that a chain of them nests to the left and binds tighter.

The main statement of this module is `State.size_lt_of_step`: every step uses up a token or closes
a frame, so that the steps come to an end.
-/

namespace Calculator.Parsing

/-- A part of an expression that is not yet complete. -/
inductive Frame where
  /-- An opening parenthesis that waits for the closing one. -/
  | group
  /-- An operator that has its left operand and waits for the right one. -/
  | operand (left : Expr) (op : Operator) (span : Span)
deriving DecidableEq

/-- What has to come next. -/
inductive Wanted where
  | value
  /-- An operator, or the end of the expression that was read so far. -/
  | operator (left : Expr)
deriving DecidableEq

/-- An expression that is being put together. -/
structure State where
  reader : Reader
  /-- The incomplete parts, the innermost first. -/
  frames : List Frame
  wanted : Wanted
deriving DecidableEq

/-- The outcome of a step: there is more to be done, or the reading is over. -/
inductive Progress where
  | more (s : State)
  | done (reader : Reader) (result : Except SyntaxError Expr)

namespace State

/-- Nothing was read so far. -/
def ofText (s : String) : State :=
  ⟨.ofText s, [], .value⟩

/-! ### Steps -/

/-- Take in a value. It is the whole right operand of a `*` or `/` that waits for one, and the
start of the right operand of a `+` or `-`. -/
def settle (r : Reader) (value : Expr) (frames : List Frame) : State :=
  match frames with
  | .operand left op span :: outer =>
    if op.isAdditive then ⟨r, frames, .operator value⟩
    else ⟨r, outer, .operator (.binary op left value span)⟩
  | _ => ⟨r, frames, .operator value⟩

/-- Take in a complete expression. It is the right operand of the innermost operator, or what the
innermost parentheses enclose, or all there is. -/
def complete (r : Reader) (e : Expr) : List Frame → Progress
  | [] =>
    let (t, r) := r.next
    if t.kind = .eof then .done r (.ok e)
    else .done r (.error (r.reject .trailing t))
  | .group :: outer =>
    let (t, r) := r.next
    if t.kind = .rightParen then .more (settle r e outer)
    else .done r (.error (r.reject (.unexpected .closingParen) t))
  | .operand left op span :: outer =>
    .more ⟨r, outer, .operator (.binary op left e span)⟩

/-- Read a token where a value is wanted. -/
def stepValue (r : Reader) (frames : List Frame) : Progress :=
  let (t, r) := r.next
  match t.kind with
  | .leftParen => .more ⟨r, .group :: frames, .value⟩
  | .number =>
    match t.value? with
    | some x => .more (settle r (.number x) frames)
    | none => .done r (.error (r.reject .invalidNumber t))
  | _ => .done r (.error (r.reject (.unexpected .operand) t))

/-- Read a token where an operator is wanted. A closing parenthesis is left for the group that it
closes, if there is one. -/
def stepOperator (r : Reader) (left : Expr) (frames : List Frame) : Progress :=
  let (t, r) := r.next
  match t.kind with
  | .eof => complete r left frames
  | .rightParen => complete (r.putBack t) left frames
  | .operator op => .more ⟨r.note op t.offset, .operand left op t.span :: frames, .value⟩
  | _ => .done r (.error (r.reject .missingOperator t))

/-- Take one step. -/
def step (s : State) : Progress :=
  match s.wanted with
  | .value => stepValue s.reader s.frames
  | .operator left => stepOperator s.reader left s.frames

/-! ### The steps end -/

/-- A bound on the steps that are left: a frame costs half a token. -/
def size (s : State) : Nat :=
  2 * s.reader.size + s.frames.length

theorem size_settle_le (r : Reader) (value : Expr) (frames : List Frame) :
    (settle r value frames).size ≤ 2 * r.size + frames.length := by
  fun_cases settle r value frames <;> simp [size]

theorem size_lt_of_complete {r : Reader} {e : Expr} {frames : List Frame} {s : State}
    (h : complete r e frames = .more s) : s.size < 2 * r.size + frames.length := by
  revert h
  fun_cases complete r e frames with
  | case1 => simp
  | case2 => simp
  | case3 outer t r' ht hk =>
    rintro ⟨⟩
    have hlt := r.size_next_lt (by simp [ht, hk])
    have := size_settle_le r' e outer
    simp only [ht] at hlt
    simp only [List.length_cons]
    omega
  | case4 => simp
  | case5 left op span outer =>
    rintro ⟨⟩
    simp [size]

theorem size_lt_of_stepValue {r : Reader} {frames : List Frame} {s : State}
    (h : stepValue r frames = .more s) : s.size < 2 * r.size + frames.length := by
  revert h
  fun_cases stepValue r frames with
  | case1 t r' ht hk =>
    rintro ⟨⟩
    have hlt := r.size_next_lt (by simp [ht, hk])
    simp only [ht] at hlt
    simp only [size, List.length_cons]
    omega
  | case2 t r' ht hk x hx =>
    rintro ⟨⟩
    have hlt := r.size_next_lt (by simp [ht, hk])
    have := size_settle_le r' (.number x) frames
    simp only [ht] at hlt
    omega
  | case3 => simp
  | case4 => simp

theorem size_lt_of_stepOperator {r : Reader} {left : Expr} {frames : List Frame} {s : State}
    (h : stepOperator r left frames = .more s) : s.size < 2 * r.size + frames.length := by
  revert h
  fun_cases stepOperator r left frames with
  | case1 t r' ht hk =>
    intro h
    have hle := r.size_next_le
    have := size_lt_of_complete h
    simp only [ht] at hle
    omega
  | case2 t r' ht hk =>
    intro h
    have hlt := r.size_next_lt (by simp [ht, hk])
    have := size_lt_of_complete h
    simp only [ht] at hlt
    simp only [Reader.size_putBack] at this
    omega
  | case3 t r' ht op hk =>
    rintro ⟨⟩
    have hlt := r.size_next_lt (by simp [ht, hk])
    simp only [ht] at hlt
    simp only [size, Reader.size_note, List.length_cons]
    omega
  | case4 => simp

/-- Every step uses up a token or closes a frame. -/
theorem size_lt_of_step {s s' : State} (h : s.step = .more s') : s'.size < s.size := by
  rcases s with ⟨r, frames, _ | left⟩
  · exact size_lt_of_stepValue h
  · exact size_lt_of_stepOperator h

/-- Take steps until the reading is over. -/
def run (s : State) : Reader × Except SyntaxError Expr :=
  match h : s.step with
  | .more s' =>
    have := size_lt_of_step h
    run s'
  | .done r result => (r, result)
termination_by s.size

theorem run_of_more {s s' : State} (h : s.step = .more s') : s.run = s'.run := by
  rw [run]
  split <;> simp_all

theorem run_of_done {s : State} {r : Reader} {result : Except SyntaxError Expr}
    (h : s.step = .done r result) : s.run = (r, result) := by
  rw [run]
  split <;> simp_all

end State

end Calculator.Parsing

namespace Calculator

/-! ### Whole texts -/

/-- What came of reading a text as an expression. -/
structure Parse where
  /-- What was noted on the way. -/
  trace : Array Parsing.Event
  result : Except SyntaxError Expr

/-- Read a text as an expression. -/
def parse (s : String) : Parse :=
  let (r, result) := (Parsing.State.ofText s).run
  ⟨r.trace, result⟩

end Calculator
