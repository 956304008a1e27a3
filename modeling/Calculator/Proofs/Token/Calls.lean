import Calculator.Proofs.Token.Partition

/-!
# Asking a stream in several ways

A stream can be asked for the next token, for the next element, and for all elements that are left,
in any order and as often as one likes. What it hands out in this way are the tokens of the text,
each of them once, and behind them the end token over and over: what was handed out and what is
still ahead make up such a list all the time (`Accounts`). Whether the stream is finished shows in
the elements that it gave, and in nothing else.
-/

namespace Calculator.Token

variable {s : String} {t : Token} {handed given : List Token}

/-- The end token of a text. -/
def ending (s : String) : Token :=
  ⟨.eof, "", s.utf8ByteSize⟩

/-- The token at a place of a text, counted from zero. Behind the last place there is the end token
again and again. -/
def tokenAt (s : String) (n : Nat) : Token :=
  (tokens s)[n]?.getD (ending s)

lemma exists_tokens_eq (s : String) :
    ∃ ts, tokens s = ts ++ [ending s] ∧ ∀ t ∈ ts, t.kind ≠ .eof := by
  obtain ⟨ts, hts, hne⟩ := Cursor.tokens_eq_append s.toList 0
  refine ⟨ts, ?_, hne⟩
  rw [tokens_eq, ending, ← String.utf8Len_toList, ← Nat.zero_add (String.utf8Len s.toList)]
  exact hts

/-- If it is followed by end tokens alone, the list of tokens still ends in the end token. -/
lemma getLast?_tokens_append (s : String) (m : Nat) :
    (tokens s ++ List.replicate m (ending s)).getLast? = some (ending s) := by
  obtain ⟨ts, hts, -⟩ := exists_tokens_eq s
  cases m with
  | zero => simp [hts]
  | succ m => simp [List.replicate_succ']

/-- The token at a place stands there in the list as well, once enough end tokens were added. -/
lemma tokenAt_of_getElem? {m n : Nat}
    (h : (tokens s ++ List.replicate m (ending s))[n]? = some t) : tokenAt s n = t := by
  rw [tokenAt]
  by_cases hn : n < (tokens s).length
  · rw [List.getElem?_append_left hn] at h
    rw [h, Option.getD_some]
  · rw [List.getElem?_append_right (Nat.not_lt.1 hn)] at h
    rw [List.getElem?_eq_none (Nat.not_lt.1 hn), Option.getD_none]
    exact (List.eq_of_mem_replicate (List.mem_of_getElem? h)).symm

namespace Stream

variable {st st' : Stream}

/-! ### Calls -/

/-- A way to ask a stream for tokens. -/
inductive Call where
  | nextToken
  | nextElement
  /-- Ask for all elements that are left. -/
  | rest
deriving DecidableEq

/-- Whether the call asks for elements. -/
def Call.isForElements : Call → Bool
  | .nextToken => false
  | .nextElement | .rest => true

/-- What is handed out in answer to a call, and the stream after it. -/
def answer (st : Stream) : Call → List Token × Stream
  | .nextToken => ([st.nextToken.1], st.nextToken.2)
  | .nextElement => (st.next?.1.toList, st.next?.2)
  | .rest => st.drain

/-- Several calls one after another, each with what is handed out in answer to it. -/
def answers (st : Stream) : List Call → List (Call × List Token)
  | [] => []
  | c :: cs => (c, (st.answer c).1) :: (st.answer c).2.answers cs

/-- The stream after several calls. -/
def after (st : Stream) (cs : List Call) : Stream :=
  cs.foldl (fun st c => (st.answer c).2) st

/-- All that is handed out in the course of several calls. -/
def handedOut (st : Stream) (cs : List Call) : List Token :=
  (st.answers cs).flatMap Prod.snd

/-- What is handed out as elements in the course of several calls. -/
def elements (st : Stream) (cs : List Call) : List Token :=
  ((st.answers cs).filter fun p => p.1.isForElements).flatMap Prod.snd

/-- The next element is the next token, unless the stream is finished. -/
lemma next?_eq (st : Stream) :
    st.next?.1 = if st.finished then none else some st.nextToken.1 := by
  rw [Stream.next?]
  split <;> rfl

/-- Draining a stream hands out all that is ahead, unless the stream is finished. -/
lemma drain_eq (st : Stream) : st.drain.1 = if st.finished then [] else st.cursor.tokens := by
  obtain ⟨k, finished⟩ := st
  cases finished with
  | true =>
    rw [drain_of_finished rfl]
    rfl
  | false =>
    rw [drain_eq_tokens]
    rfl

/-! ### The account of a stream -/

/-- What was handed out agrees with the state of the stream. -/
structure Accounts (s : String) (handed given : List Token) (st : Stream) : Prop where
  /-- With what is ahead it makes up the tokens of the text, and maybe further end tokens. -/
  complete : ∃ m, handed ++ st.cursor.tokens = tokens s ++ List.replicate m (ending s)
  /-- The end token is among the elements once if the stream is finished, and never otherwise. -/
  ended : given.countP (fun t => t.kind = .eof) = if st.finished then 1 else 0

lemma accounts_ofText (s : String) : Accounts s [] [] (ofText s) where
  complete := ⟨0, by simp [ofText, tokens_eq]⟩
  ended := rfl

namespace Accounts

/-- The next token counts as handed out; the cursor moves on, or stays at the end. -/
lemma read (h : Accounts s handed given st) :
    ∃ m, handed ++ [st.cursor.nextToken.1] ++ st.cursor.nextToken.2.tokens =
      tokens s ++ List.replicate m (ending s) := by
  obtain ⟨m, hm⟩ := h.complete
  by_cases he : st.cursor.nextToken.1.kind = .eof
  · refine ⟨m + 1, ?_⟩
    have hstay : st.cursor.nextToken.2 = st.cursor := by
      rw [Cursor.nextToken_of_rest_eq_nil (Cursor.kind_nextToken_eq_eof_iff.1 he)]
    have hend : st.cursor.nextToken.1 = ending s := by
      have hlast := congrArg List.getLast? hm
      rw [getLast?_tokens_append, Cursor.tokens_of_eof he, List.getLast?_concat] at hlast
      exact Option.some.inj hlast
    rw [hstay, Cursor.tokens_of_eof he, hend, List.replicate_succ', ← List.append_assoc, ← hm,
      Cursor.tokens_of_eof he, hend]
  · exact ⟨m, by rw [← hm, Cursor.tokens_of_not_eof he, List.append_assoc]; rfl⟩

lemma nextToken (h : Accounts s handed given st) :
    Accounts s (handed ++ [st.nextToken.1]) given st.nextToken.2 :=
  ⟨h.read, h.ended⟩

lemma next? (h : Accounts s handed given st) (hnext : st.next? = (some t, st')) :
    Accounts s (handed ++ [t]) (given ++ [t]) st' := by
  obtain ⟨k, finished⟩ := st
  cases finished with
  | true => simp [Stream.next?] at hnext
  | false =>
    obtain ⟨rfl, rfl⟩ : k.nextToken.1 = t ∧
        (⟨k.nextToken.2, k.nextToken.1.kind = .eof⟩ : Stream) = st' := by
      simpa [Stream.next?] using hnext
    refine ⟨h.read, ?_⟩
    have hended := h.ended
    simp_all [List.countP_append, List.countP_cons]

/-- All elements that are left are handed out one by one. -/
lemma drain (h : Accounts s handed given st) :
    Accounts s (handed ++ st.drain.1) (given ++ st.drain.1) st.drain.2 := by
  fun_induction Stream.drain st generalizing handed given with
  | case1 st st' hnext =>
    obtain rfl : st' = st := by
      rcases st.next?_cases with ⟨-, hst⟩ | ⟨t, st'', hst⟩
      · exact (congrArg Prod.snd (hnext.symm.trans hst))
      · cases hnext.symm.trans hst
    simpa using h
  | case2 st t st' hnext _ ts st'' hdrain ih =>
    have hrest := ih (h.next? hnext)
    simpa [hdrain] using hrest

/-- A call is accounted for, and only what it hands out as elements is counted among these. -/
lemma answer (h : Accounts s handed given st) (c : Call) :
    Accounts s (handed ++ (st.answer c).1)
      (given ++ if c.isForElements then (st.answer c).1 else []) (st.answer c).2 := by
  cases c with
  | nextToken => simpa [Stream.answer, Call.isForElements] using h.nextToken
  | nextElement =>
    rcases st.next?_cases with ⟨-, hst⟩ | ⟨t, st', hst⟩
    · simpa [Stream.answer, Call.isForElements, hst] using h
    · simpa [Stream.answer, Call.isForElements, hst] using h.next? hst
  | rest => simpa [Stream.answer, Call.isForElements] using h.drain

/-- Calls are accounted for, however many there are. -/
lemma answers (h : Accounts s handed given st) (cs : List Call) :
    Accounts s (handed ++ st.handedOut cs) (given ++ st.elements cs) (st.after cs) := by
  induction cs generalizing st handed given with
  | nil => simpa [handedOut, elements, Stream.answers, after] using h
  | cons c cs ih =>
    have hrest := ih (h.answer c)
    cases hc : c.isForElements <;>
      simpa [handedOut, elements, Stream.answers, after, hc] using hrest

/-- A stream is finished as soon as it gave the end token as an element. -/
lemma finished_iff (h : Accounts s handed given st) :
    st.finished = true ↔ ∃ t ∈ given, t.kind = .eof := by
  have hcount := h.ended
  have hpos := List.countP_pos_iff (p := fun t : Token => t.kind = .eof) (l := given)
  simp only [decide_eq_true_eq] at hpos
  rw [← hpos, hcount]
  cases st.finished <;> simp

/-- What is handed out next has its place behind all that was handed out before. -/
lemma tokenAt_eq (h : Accounts s handed given st) :
    tokenAt s handed.length = st.nextToken.1 := by
  obtain ⟨m, hm⟩ := h.complete
  apply tokenAt_of_getElem? (m := m)
  obtain ⟨ts, hts⟩ := st.cursor.exists_tokens_eq_cons
  rw [← hm, List.getElem?_append_right le_rfl, Nat.sub_self, hts]
  rfl

end Accounts

/-- However the ways of asking a stream are mixed, it hands out the tokens of its text in order, and
then the end token over and over. There are no further elements once the end token was one of them,
however often it was the next token. -/
theorem handedOut_isPrefix (s : String) (calls : List Call) :
    (∃ m, (ofText s).handedOut calls <+: tokens s ++ List.replicate m (ending s)) ∧
    ((ofText s).elements calls).countP (fun t => t.kind = .eof) ≤ 1 ∧
    (((ofText s).after calls).next?.1 = none ↔
      ∃ t ∈ (ofText s).elements calls, t.kind = .eof) ∧
    (((ofText s).after calls).drain.1 = [] ↔
      ∃ t ∈ (ofText s).elements calls, t.kind = .eof) ∧
    ((ofText s).after calls).nextToken.1 = tokenAt s ((ofText s).handedOut calls).length ∧
    (((ofText s).after calls).next?.1 = none ∨
      ((ofText s).after calls).next?.1 = some (tokenAt s ((ofText s).handedOut calls).length)) ∧
    (((ofText s).after calls).drain.1 = [] ∨
      ∃ m, (ofText s).handedOut calls ++ ((ofText s).after calls).drain.1 =
        tokens s ++ List.replicate m (ending s)) := by
  have h : Accounts s ((ofText s).handedOut calls) ((ofText s).elements calls)
      ((ofText s).after calls) := by
    simpa using (accounts_ofText s).answers calls
  generalize (ofText s).handedOut calls = handed, (ofText s).elements calls = given,
    (ofText s).after calls = st at h
  obtain ⟨m, hm⟩ := h.complete
  rw [← h.finished_iff, h.tokenAt_eq, next?_eq, drain_eq, h.ended]
  refine ⟨⟨m, _, hm⟩, ?_⟩
  cases st.finished with
  | true => simp
  | false => simpa [st.cursor.tokens_ne_nil] using ⟨m, hm⟩

end Stream

end Calculator.Token
