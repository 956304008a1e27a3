import Calculator.Calculation
import Calculator.Proofs.Parsing.Counter

/-!
# What reading leaves in the log

A reader notes each token when it comes from the text, and each operator that is found in its place.
A closing parenthesis that is put back comes from the reader when it is read again, and leaves
nothing new behind. The end token never goes away: it comes from the text, and is noted, each time
one of the operators that wait for it is completed.
-/

namespace Calculator.Parsing

variable {r r' : Reader} {t : Token} {frames outer : List Frame} {left e : Expr}

/-! ### Records -/

/-- The record of a token that was scanned. -/
def scanRecord (t : Token) : Log.Record :=
  ⟨.trace, "calc::parse", "scanned " ++ t.text⟩

/-- The record of an operator that was found in its place. -/
def operatorRecord (op : Operator) (offset : Nat) : Log.Record :=
  ⟨.trace, "calc::parse", "operator " ++ op.text ++ " at byte " ++ toString offset⟩

/-- The record of an event. -/
def Event.record : Event → Log.Record
  | .scanned t => scanRecord t
  | .operator op offset => operatorRecord op offset

/-- The record that a token leaves besides, if it is an operator and one was wanted. -/
def Counter.noted (c : Counter) (t : Token) : List Log.Record :=
  match c.phase, t.kind with
  | .operator, .operator op => [operatorRecord op t.offset]
  | _, _ => []

namespace Reader

/-- The records of what a reader noted. -/
def log (r : Reader) : List Log.Record :=
  r.trace.toList.map Event.record

@[simp] lemma log_note (r : Reader) (op : Operator) (n : Nat) :
    (r.note op n).log = r.log ++ [operatorRecord op n] := by
  simp [log, note, Event.record]

lemma log_read (h : r.pending = []) : r.read.2.log = r.log ++ [scanRecord r.read.1] := by
  obtain ⟨s, k, pending, trace⟩ := r
  obtain rfl : pending = [] := h
  simp [read, log, Event.record]

/-- What is put back is read next, and then the reader is as it was. -/
lemma next_putBack (r : Reader) (h : t.kind ≠ .whitespace) : (r.putBack t).next = (t, r) := by
  have hread : (r.putBack t).read = (t, r) := rfl
  rw [next_of_not_whitespace (by rwa [hread]), hread]

/-! ### The end of the text -/

/-- The text is used up. -/
structure AtEnd (r : Reader) : Prop where
  pending : r.pending = []
  rest : r.cursor.rest = []

/-- The end token, which is all that is left. -/
def endToken (r : Reader) : Token :=
  ⟨.eof, "", r.cursor.offset⟩

/-- A reader after one more look at the end of the text. -/
def scanEnd (r : Reader) : Reader :=
  { r with trace := r.trace.push (.scanned r.endToken) }

lemma log_scanEnd (r : Reader) : r.scanEnd.log = r.log ++ [scanRecord r.endToken] := by
  simp [log, scanEnd, Event.record]

lemma log_scanEnd_twice (r : Reader) :
    r.scanEnd.scanEnd.log = r.log ++ List.replicate 2 (scanRecord r.endToken) := by
  rw [log_scanEnd, log_scanEnd, List.append_assoc]
  rfl

lemma AtEnd.scanEnd (h : r.AtEnd) : r.scanEnd.AtEnd :=
  ⟨h.pending, h.rest⟩

lemma AtEnd.read (h : r.AtEnd) : r.read = (r.endToken, r.scanEnd) := by
  obtain ⟨s, k, pending, trace⟩ := r
  obtain ⟨hpending, hrest⟩ := h
  obtain rfl : pending = [] := hpending
  simp only [Reader.read, Cursor.nextToken_of_rest_eq_nil hrest]
  rfl

lemma AtEnd.next (h : r.AtEnd) : r.next = (r.endToken, r.scanEnd) := by
  rw [next_of_not_whitespace, h.read]
  rw [h.read]
  simp [endToken]

end Reader

/-! ### Several steps at once -/

/-- The operators that wait for their right operand within the innermost parentheses. -/
def waiting : List Frame → Nat
  | .operand _ _ _ :: frames => waiting frames + 1
  | _ => 0

namespace State

/-- A state goes its way by the next token of its reader. -/
lemma run_congr (h : r.next = r'.next) (frames : List Frame) (wanted : Wanted) :
    run ⟨r, frames, wanted⟩ = run ⟨r', frames, wanted⟩ := by
  have hstep : step ⟨r, frames, wanted⟩ = step ⟨r', frames, wanted⟩ := by
    cases wanted with
    | value => simp only [step, stepValue, h]
    | operator left => simp only [step, stepOperator, h]
  cases hs : step ⟨r, frames, wanted⟩ with
  | more s => rw [run_of_more hs, run_of_more (hstep.symm.trans hs)]
  | done r'' result => rw [run_of_done hs, run_of_done (hstep.symm.trans hs)]

lemma settle_eq (r : Reader) (e : Expr) (frames : List Frame) :
    settle r e frames = ⟨r, (Stack.settle e frames).frames, (Stack.settle e frames).wanted⟩ := by
  fun_cases settle r e frames <;> simp_all [Stack.settle]

lemma step_rightParen (hn : r.next = (t, r')) (hk : t.kind = .rightParen) :
    step ⟨r, frames, .operator left⟩ = complete (r'.putBack t) left frames := by
  simp only [step, stepOperator, hn, hk]

/-- A closing parenthesis goes through all operators that wait, and is read again behind them. -/
lemma run_rightParen (hn : r.next = (t, r')) (hk : t.kind = .rightParen) :
    run ⟨r, frames, .operator left⟩ =
      match Stack.close left frames with
      | (e, some outer) => run (settle r' e outer)
      | (_, none) => (r', .error (r'.reject .trailing t)) := by
  have hback : (r'.putBack t).next = (t, r') := r'.next_putBack (by simp [hk])
  -- each operator that waits reads the parenthesis and puts it back for the next frame
  induction frames generalizing r left with
  | nil =>
    apply run_of_done
    rw [step_rightParen hn hk]
    simp [complete, hback, hk]
  | cons f frames ih =>
    cases f with
    | group =>
      apply run_of_more
      rw [step_rightParen hn hk]
      simp [complete, hback, hk]
    | operand left' op span =>
      have hstep : step ⟨r, .operand left' op span :: frames, .operator left⟩ =
          .more ⟨r'.putBack t, frames, .operator (.binary op left' left span)⟩ :=
        step_rightParen hn hk
      rw [run_of_more hstep]
      exact ih hback

lemma step_end (h : r.AtEnd) :
    step ⟨r, frames, .operator left⟩ = complete r.scanEnd left frames := by
  simp only [step, stepOperator, h.next]
  rfl

/-- At the end of the text each operator that waits takes one look, and then there are two more: of
the expression as a whole, and of what has to come behind it. -/
lemma run_end (h : r.AtEnd) :
    (run ⟨r, frames, .operator left⟩).1.log =
        r.log ++ List.replicate (2 + waiting frames) (scanRecord r.endToken) ∧
      ∀ e, (run ⟨r, frames, .operator left⟩).2 = .error e → e.token = r.endToken := by
  induction frames generalizing r left with
  | nil =>
    have hdone : step ⟨r, [], .operator left⟩ = .done r.scanEnd.scanEnd (.ok left) := by
      rw [step_end h]
      simp only [complete, h.scanEnd.next]
      rfl
    rw [run_of_done hdone]
    exact ⟨r.log_scanEnd_twice, by simp⟩
  | cons f frames ih =>
    cases f with
    | group =>
      have hdone : step ⟨r, .group :: frames, .operator left⟩ = .done r.scanEnd.scanEnd
          (.error (r.reject (.unexpected .closingParen) r.endToken)) := by
        rw [step_end h]
        simp only [complete, h.scanEnd.next]
        rfl
      rw [run_of_done hdone]
      refine ⟨r.log_scanEnd_twice, ?_⟩
      rintro e ⟨⟩
      rfl
    | operand left' op span =>
      -- one look for this operator, and the others have one frame less to go through
      have hmore : step ⟨r, .operand left' op span :: frames, .operator left⟩ =
          .more ⟨r.scanEnd, frames, .operator (.binary op left' left span)⟩ := step_end h
      rw [run_of_more hmore]
      obtain ⟨hlog, herror⟩ := ih h.scanEnd
      refine ⟨?_, herror⟩
      rw [hlog, Reader.log_scanEnd, List.append_assoc, waiting, ← Nat.add_assoc,
        List.replicate_succ]
      rfl

/-- A token that the stack takes in leaves the reader behind it, with a record if it is an operator
in its place. -/
lemma run_of_feed_more {st st' : Stack} (hn : r.next = (t, r')) (h : st.feed t = .more st') :
    ∃ r'' : Reader, run ⟨r, st.frames, st.wanted⟩ = run ⟨r'', st'.frames, st'.wanted⟩ ∧
      r''.pending = r'.pending ∧ r''.cursor = r'.cursor ∧
        r''.log = r'.log ++ st.counter.noted t := by
  cases Stack.Takes.of_feed h with
  | leftParen frames hk =>
    refine ⟨r', run_of_more ?_, rfl, rfl, by simp [Counter.noted, Stack.counter]⟩
    simp only [step, stepValue, hn, hk]
  | number frames x hk hx =>
    refine ⟨r', run_of_more ?_, rfl, rfl, by simp [Counter.noted, Stack.counter]⟩
    simp only [step, stepValue, hn, hk, hx, settle_eq]
  | rightParen frames outer left e hk hc =>
    refine ⟨r', ?_, rfl, rfl, by simp [Counter.noted, hk]⟩
    rw [run_rightParen hn hk, hc, ← settle_eq]
  | operator frames left op hk =>
    refine ⟨r'.note op t.offset, run_of_more ?_, rfl, rfl, ?_⟩
    · simp only [step, stepOperator, hn, hk]
    · simp [Counter.noted, Stack.counter, hk]

/-- At a token that the stack does not take in the reading stops, unless the text is at its end. -/
lemma run_of_feed_reject {st : Stack} {fault : SyntaxError.Fault} {u : Token}
    (hn : r.next = (t, r')) (h : st.feed t = .reject fault u) (hk : t.kind ≠ .eof) :
    run ⟨r, st.frames, st.wanted⟩ = (r', .error (r'.reject fault t)) := by
  obtain ⟨frames, _ | left⟩ := st
  · apply run_of_done
    simp only [Stack.feed] at h
    revert h
    fun_cases Stack.feedValue frames t with
    | case1 hk => rintro ⟨⟩
    | case2 hk x hx => rintro ⟨⟩
    | case3 hk hx =>
      rintro ⟨⟩
      simp only [step, stepValue, hn, hk, hx]
    | case4 hparen hnumber =>
      rintro ⟨⟩
      simp only [step, stepValue, hn]
  · simp only [Stack.feed] at h
    revert h
    fun_cases Stack.feedOperator left frames t with
    | case1 heof => exact absurd heof hk
    | case2 heof => exact absurd heof hk
    | case3 hparen e outer hc => rintro ⟨⟩
    | case4 hparen e hc =>
      -- it takes several steps to find that no group is open
      rintro ⟨⟩
      rw [run_rightParen hn hparen, hc]
    | case5 op hop => rintro ⟨⟩
    | case6 heof hparen hop =>
      rintro ⟨⟩
      apply run_of_done
      simp only [step, stepOperator, hn]

end State

end Calculator.Parsing
