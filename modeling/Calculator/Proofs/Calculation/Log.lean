import Calculator.Proofs.Parsing.Grammar
import Calculator.Proofs.Parsing.Tracing
import Calculator.Proofs.Token.Locality

/-!
# The log of a calculation

The log lists the tokens of the text, white space included, up to the last one that was read. That
is the token at which the text was rejected, or the end token. The end token is listed once where a
value is wanted. Where an operator is wanted it is listed twice, and once more for every `+` and `-`
that stands directly in the innermost group that is still open. Behind the tokens comes the
expression, if the text is one, and then its value, if it has one.
-/

namespace Calculator.Parsing

variable {r r' : Reader} {t : Token} {ts us : List Token} {frames outer : List Frame}
variable {left e : Expr}

/-! ### The records of a list of tokens -/

/-- The state behind a token. White space, which the machine does not see, leaves it as it is. -/
def Counter.advance (c : Counter) (t : Token) : Counter :=
  match c.next t with
  | .more c' => c'
  | _ => c

/-- The records of tokens that were read one after the other. -/
def Counter.log (c : Counter) : List Token → List Log.Record
  | [] => []
  | t :: ts => scanRecord t :: (c.noted t ++ (c.advance t).log ts)

/-- One operator more in the innermost group, where `+` and `-` alone are counted. -/
def countOperator (op : Operator) : List Nat → List Nat
  | [] => []
  | k :: ks => (if op.isAdditive then k + 1 else k) :: ks

/-- How many `+` and `-` stand directly in each of the open groups, the innermost first and the
whole text last: the counts behind a token, from those before it. -/
def countAdditive (ks : List Nat) (t : Token) : List Nat :=
  match t.kind with
  | .leftParen => 0 :: ks
  | .rightParen => ks.tail
  | .operator op => countOperator op ks
  | _ => ks

/-- How often the end token is read, with `k` operators `+` and `-` in the innermost open group. -/
def Counter.endReads (c : Counter) (k : Nat) : Nat :=
  match c.phase with
  | .value => 1
  | .operator => 2 + k

/-- The records that reading a list of tokens with this result leaves, from a state of the counting
machine and the counts of `+` and `-` on. -/
inductive ReadLog (c : Counter) (ks : List Nat) :
    List Token → Except SyntaxError Expr → List Log.Record → Prop where
  /-- A token is rejected and is the last one to be read. -/
  | reject (us vs : List Token) (e : SyntaxError) (hk : e.token.kind ≠ .eof) :
      ReadLog c ks (us ++ e.token :: vs) (.error e) (c.log (us ++ [e.token]))
  /-- All tokens are read, the end token being the last one. -/
  | finish (us : List Token) (t : Token) (result : Except SyntaxError Expr) (hk : t.kind = .eof)
      (hresult : ∀ e, result = .error e → e.token = t) :
      ReadLog c ks (us ++ [t]) result
        (c.log us ++ List.replicate
          ((us.foldl Counter.advance c).endReads ((us.foldl countAdditive ks).headD 0))
          (scanRecord t))

lemma ReadLog.cons {c : Counter} {ks : List Nat} {result : Except SyntaxError Expr}
    {log : List Log.Record} (h : ReadLog (c.advance t) (countAdditive ks t) ts result log) :
    ReadLog c ks (t :: ts) result (scanRecord t :: (c.noted t ++ log)) := by
  cases h with
  | reject us vs e hk => exact .reject (t :: us) vs e hk
  | finish us u result hk hresult =>
    have hlog : ReadLog c ks (t :: us ++ [u]) result _ := .finish (t :: us) u result hk hresult
    simpa [Counter.log] using hlog

lemma ReadLog.cons_whitespace {c : Counter} {ks : List Nat} {result : Except SyntaxError Expr}
    {log : List Log.Record} (h : ReadLog c ks ts result log) (ht : t.kind = .whitespace) :
    ReadLog c ks (t :: ts) result (scanRecord t :: log) := by
  have hadvance : c.advance t = c := by
    obtain ⟨_ | _, depth⟩ := c <;> simp [Counter.advance, Counter.next, ht]
  have hnoted : c.noted t = [] := by
    obtain ⟨_ | _, depth⟩ := c <;> simp [Counter.noted, ht]
  have hcount : countAdditive ks t = ks := by simp [countAdditive, ht]
  have hcons : ReadLog c ks (t :: ts) result (scanRecord t :: (c.noted t ++ log)) := by
    apply ReadLog.cons
    rwa [hadvance, hcount]
  rwa [hnoted] at hcons

/-- Tokens at different places, read with the same result, leave the same records. -/
theorem ReadLog.unique {c : Counter} {ks : List Nat} {result : Except SyntaxError Expr}
    {log log' : List Log.Record} (h : ReadLog c ks ts result log)
    (h' : ReadLog c ks ts result log') (hts : ts.Pairwise fun t u => t.offset < u.offset) :
    log = log' := by
  cases h with
  | reject us vs e hk =>
    generalize hlist : us ++ e.token :: vs = us' at h'
    generalize hresult : Except.error e = result at h'
    cases h' with
    | reject us' vs' e' hk' =>
      obtain rfl : e = e' := by simpa using hresult
      obtain rfl : us = us' := by
        rw [← Cursor.takeWhile_offset_lt hts, hlist, Cursor.takeWhile_offset_lt (hlist ▸ hts)]
      rfl
    | finish us' t' result hk' hresult' =>
      exact absurd (hresult' e hresult.symm ▸ hk') hk
  | finish us t result hk hresult =>
    generalize hlist : us ++ [t] = us' at h'
    cases h' with
    | reject us' vs' e hk' => exact absurd (hresult e rfl ▸ hk) hk'
    | finish us' t' result hk' hresult' =>
      obtain ⟨rfl, ⟨⟩⟩ := List.append_inj' hlist rfl
      rfl

/-! ### Counting `+` and `-` on the stack -/

/-- The counts of the operators `+` and `-` that wait for their right operand. -/
def additiveFrames : List Frame → List Nat
  | [] => [0]
  | .group :: frames => 0 :: additiveFrames frames
  | .operand _ op _ :: frames => countOperator op (additiveFrames frames)

lemma countOperator_of_not_additive {op : Operator} (h : op.isAdditive = false) (ks : List Nat) :
    countOperator op ks = ks := by
  cases ks <;> simp [countOperator, h]

namespace Stack

lemma additiveFrames_settle (e : Expr) (frames : List Frame) :
    additiveFrames (settle e frames).frames = additiveFrames frames := by
  fun_cases settle e frames with
  | case1 => rfl
  | case2 left op span outer hop =>
    rw [additiveFrames, countOperator_of_not_additive (by simpa using hop)]
  | case3 => rfl

lemma tail_additiveFrames (h : close left frames = (e, some outer)) :
    (additiveFrames frames).tail = additiveFrames outer := by
  fun_induction close left frames with
  | case1 => cases h
  | case2 =>
    cases h
    rfl
  | case3 left' left op span frames ih =>
    rw [← ih h, additiveFrames]
    cases additiveFrames frames <;> rfl

lemma Takes.additiveFrames_eq {s s' : Stack} (h : Takes t s s') :
    additiveFrames s'.frames = countAdditive (additiveFrames s.frames) t := by
  cases h with
  | leftParen frames hk => simp [countAdditive, hk, additiveFrames]
  | number frames x hk hx => simp [countAdditive, hk, additiveFrames_settle]
  | rightParen frames outer left e hk hc =>
    simp [countAdditive, hk, additiveFrames_settle, tail_additiveFrames hc]
  | operator frames left op hk => simp [countAdditive, hk, additiveFrames]

lemma exists_additiveFrames_eq (frames : List Frame) :
    ∃ k ks, additiveFrames frames = k :: ks := by
  induction frames with
  | nil => exact ⟨0, [], rfl⟩
  | cons f frames ih =>
    cases f with
    | group => exact ⟨0, _, rfl⟩
    | operand left op span =>
      obtain ⟨k, ks, hks⟩ := ih
      rw [additiveFrames, hks]
      exact ⟨_, ks, rfl⟩

/-- Where an operator is wanted, the operators that wait within the innermost parentheses are all
`+` and `-`. -/
lemma waiting_eq (h : Spelled frames us) (hs : IsSettled frames) :
    waiting frames = (additiveFrames frames).headD 0 := by
  induction h with
  | nil => rfl
  | group h ht ih => rfl
  | @operand frames ts us t op left h hs' hd ht ih =>
    have hop : op.isAdditive = true := hs
    obtain ⟨k, ks, hks⟩ := exists_additiveFrames_eq frames
    rw [waiting, ih hs', additiveFrames, hks]
    simp [countOperator, hop]

end Stack

/-! ### The log of a run -/

/-- A reader takes a token from the text, and it is not the end token. -/
structure Reader.Scans (r : Reader) (t : Token) (r' : Reader) : Prop where
  read : r.read = (t, r')
  kind : t.kind ≠ .eof
  tokens : r.cursor.tokens = t :: r'.cursor.tokens
  pending : r'.pending = []
  log : r'.log = r.log ++ [scanRecord t]

/-- With nothing put back, a reader is at the end of its text or takes the next token from it. -/
lemma Reader.atEnd_or_scans (hp : r.pending = []) :
    (r.AtEnd ∧ r.cursor.tokens = [r.endToken]) ∨ ∃ t r', r.Scans t r' := by
  have hlog := r.log_read hp
  obtain ⟨s, k, pending, trace⟩ := r
  obtain rfl : pending = [] := hp
  by_cases hk : k.nextToken.1.kind = .eof
  · have hrest := Cursor.kind_nextToken_eq_eof_iff.1 hk
    refine .inl ⟨⟨rfl, hrest⟩, ?_⟩
    rw [Cursor.tokens_of_eof hk, Cursor.nextToken_of_rest_eq_nil hrest]
    rfl
  · exact .inr ⟨_, _, rfl, hk, Cursor.tokens_of_not_eof hk, rfl, hlog⟩

lemma Reader.Scans.next (h : r.Scans t r') (hw : t.kind ≠ .whitespace) : r.next = (t, r') := by
  rw [next_of_not_whitespace (by rwa [h.read]), h.read]

lemma Reader.Scans.next_of_whitespace (h : r.Scans t r') (hw : t.kind = .whitespace) :
    r.next = r'.next := by
  rw [Reader.next_of_whitespace (by rwa [h.read]), h.read]

lemma Stack.noted_of_feed_reject {st : Stack} {fault : SyntaxError.Fault} {u : Token}
    (h : st.feed t = .reject fault u) : st.counter.noted t = [] := by
  obtain ⟨frames, _ | left⟩ := st
  · rfl
  · cases hk : t.kind with
    | operator op =>
      rw [feed_operator hk] at h
      cases h
    | _ => simp [Counter.noted, hk]

lemma Stack.counter_of_feed_more {st st' : Stack} (h : st.feed t = .more st')
    (hnumber : t.kind = .number → (t.value? = none ↔ t.literal = ".")) :
    st'.counter = st.counter.advance t := by
  have hruling := ruling_feed st hnumber
  rw [h] at hruling
  rw [Counter.advance, ← hruling]
  rfl

namespace State

variable {st st' : Stack}

/-- The records that a run adds from here on are those of the tokens that are left. -/
def LogsTokens (r : Reader) (st : Stack) : Prop :=
  ∃ log, (run ⟨r, st.frames, st.wanted⟩).1.log = r.log ++ log ∧
    ReadLog st.counter (additiveFrames st.frames) r.cursor.tokens
      (run ⟨r, st.frames, st.wanted⟩).2 log

lemma logsTokens_of_atEnd (h : r.AtEnd) (htokens : r.cursor.tokens = [r.endToken])
    (hst : st.Spells us) : LogsTokens r st := by
  rw [LogsTokens, htokens]
  obtain ⟨frames, _ | left⟩ := st
  · have hdone : step ⟨r, frames, .value⟩ =
        .done r.scanEnd (.error (r.scanEnd.reject (.unexpected .operand) r.endToken)) := by
      simp only [step, stepValue, h.next]
      rfl
    rw [run_of_done hdone]
    refine ⟨[scanRecord r.endToken], r.log_scanEnd, ?_⟩
    refine .finish [] r.endToken _ rfl ?_
    rintro e ⟨⟩
    rfl
  · obtain ⟨hsettled, vs, ws, -, hspelled, -⟩ := hst
    obtain ⟨hlog, herror⟩ := run_end h
    refine ⟨_, hlog, ?_⟩
    rw [Stack.waiting_eq hspelled hsettled]
    exact .finish [] r.endToken _ rfl herror

lemma logsTokens_of_whitespace (hr : r.Scans t r') (ht : t.kind = .whitespace)
    (h : LogsTokens r' st) : LogsTokens r st := by
  obtain ⟨log, hlog, hread⟩ := h
  rw [LogsTokens, run_congr (hr.next_of_whitespace ht), hr.tokens]
  refine ⟨scanRecord t :: log, ?_, hread.cons_whitespace ht⟩
  rw [hlog, hr.log, List.append_assoc, List.singleton_append]

lemma logsTokens_of_more (hr : r.Scans t r') (ht : t.kind ≠ .whitespace)
    (hfeed : st.feed t = .more st')
    (hnumber : t.kind = .number → (t.value? = none ↔ t.literal = "."))
    (h : ∀ r'' : Reader, r''.pending = [] → r''.cursor = r'.cursor → LogsTokens r'' st') :
    LogsTokens r st := by
  obtain ⟨r'', hrun, hp, hcursor, hnoted⟩ := run_of_feed_more (hr.next ht) hfeed
  obtain ⟨log, hlog, hread⟩ := h r'' (hp.trans hr.pending) hcursor
  rw [Stack.counter_of_feed_more hfeed hnumber,
    (Stack.Takes.of_feed hfeed).additiveFrames_eq, hcursor] at hread
  rw [LogsTokens, hrun, hr.tokens]
  refine ⟨scanRecord t :: (st.counter.noted t ++ log), ?_, hread.cons⟩
  rw [hlog, hnoted, hr.log]
  simp

lemma logsTokens_of_reject {fault : SyntaxError.Fault} {u : Token} (hr : r.Scans t r')
    (ht : t.kind ≠ .whitespace) (hfeed : st.feed t = .reject fault u) : LogsTokens r st := by
  rw [LogsTokens, run_of_feed_reject (hr.next ht) hfeed hr.kind, hr.tokens]
  refine ⟨[scanRecord t], hr.log, ?_⟩
  have hlog : [scanRecord t] = st.counter.log [t] := by
    simp [Counter.log, Stack.noted_of_feed_reject hfeed]
  rw [hlog]
  exact .reject [] r'.cursor.tokens (r'.reject fault t) hr.kind

/-- Whatever was read before, the records that are added are those of the tokens that are left. -/
theorem logsTokens (hp : r.pending = [])
    (hnumber : ∀ t ∈ r.cursor.tokens, t.kind = .number → (t.value? = none ↔ t.literal = "."))
    (hst : st.Spells us) : LogsTokens r st := by
  generalize hts : r.cursor.tokens = ts at hnumber
  induction ts generalizing r st us with
  | nil => exact absurd hts r.cursor.tokens_ne_nil
  | cons t ts ih =>
    rcases r.atEnd_or_scans hp with ⟨hend, htokens⟩ | ⟨u, r', hr⟩
    · exact logsTokens_of_atEnd hend htokens hst
    · obtain ⟨rfl, rfl⟩ := List.cons.inj (hts.symm.trans hr.tokens)
      obtain ⟨ht, hnumber⟩ := List.forall_mem_cons.1 hnumber
      by_cases hw : t.kind = .whitespace
      · exact logsTokens_of_whitespace hr hw (ih hr.pending hst rfl hnumber)
      · cases hfeed : st.feed t with
        | more st' =>
          apply logsTokens_of_more hr hw hfeed ht
          intro r'' hp' hcursor
          exact ih hp' ((Stack.Takes.of_feed hfeed).spells hst) (by rw [hcursor]) hnumber
        | accept e =>
          -- only the end token is accepted
          obtain ⟨-, -, -, heof, -⟩ := Stack.of_feed_eq_accept hfeed
          exact absurd heof hr.kind
        | reject fault u => exact logsTokens_of_reject hr hw hfeed

end State

end Calculator.Parsing

namespace Calculator

open Parsing

/-- What was noted while reading a text is in the log. -/
lemma parse_log (s : String) : (State.ofText s).run.1.log = (parse s).log := by
  simp only [Reader.log, Parse.log]
  congr
  funext event
  cases event <;> rfl

lemma value?_of_mem_tokens {s : String} {t : Token} (ht : t ∈ Token.tokens s)
    (hk : t.kind = .number) : t.value? = none ↔ t.literal = "." := by
  refine value?_of_visible (s := s) ?_ hk
  simp [Token.visible, ht, hk]

/-- What reading a text leaves in the log are the records of its tokens. -/
theorem readLog_parse (s : String) :
    ReadLog .start [0] (Token.tokens s) (parse s).result (parse s).log := by
  have hempty : Stack.empty.Spells [] := Spelled.nil
  obtain ⟨log, hlog, hread⟩ := State.logsTokens (r := .ofText s) rfl
    (fun t ht => value?_of_mem_tokens (Token.tokens_eq s ▸ ht)) hempty
  have hparse : (parse s).log = log := by
    rw [← parse_log]
    exact hlog
  rw [Token.tokens_eq, hparse]
  exact hread

example : (parse "3-(1+2").log.map Log.Record.message =
    ["scanned NUMBER 3 3", "scanned MINUS - null", "operator - at byte 1",
      "scanned LEFT_PAREN ( null", "scanned NUMBER 1 1", "scanned PLUS + null",
      "operator + at byte 4", "scanned NUMBER 2 2", "scanned EOF  null", "scanned EOF  null",
      "scanned EOF  null"] := by
  decide +kernel

/-- The log of a calculation consists of the records of reading the text, then of the expression if
the text is one, and then of its value if it has one. Only one list of records is that of reading
the text with this result. -/
theorem calculationLog_eq (s : String) :
    ∃ log, (∀ log', ReadLog .start [0] (Token.tokens s) (parse s).result log' ↔ log' = log) ∧
      calculationLog s = log ++
        match (parse s).result with
        | .error _ => []
        | .ok e => ⟨.debug, "calc", "parsed " ++ e.text⟩ ::
          match e.eval with
          | .error _ => []
          | .ok x => [⟨.debug, "calc", e.text ++ " = " ++ x.text⟩] := by
  have hread := readLog_parse s
  refine ⟨(parse s).log, ?_, ?_⟩
  · intro log
    constructor
    · intro hlog
      refine hlog.unique hread ?_
      rw [Token.tokens_eq]
      exact Cursor.tokens_pairwise _ _
    · rintro rfl
      exact hread
  · rw [calculationLog]
    cases (parse s).result with
    | error e => rfl
    | ok e =>
      simp only [Expr.log]
      cases e.eval <;> rfl

end Calculator
