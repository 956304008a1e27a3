import Calculator.Proofs.Parsing.Grammar
import Calculator.Proofs.Parsing.Moments
import Mathlib.Data.List.Destutter

/-!
# Tokens that are put back

A token that is put back is read twice, and at the end of the text the end token is read again and
again. The rules see nothing else twice and nothing out of order: but for such repetitions, which
follow each other at once, they see what comes from the text (`Tells`), and that is the visible
tokens of the text one after another.
-/

namespace Calculator

/-! ### Lists without repetitions of neighbours -/

section Destutter

variable {α : Type} [DecidableEq α] {l : List α} {a b : α}

lemma destutter'_concat (l : List α) (a b : α) :
    (l ++ [a]).destutter' (· ≠ ·) b =
      if (b :: l).getLast? = some a then l.destutter' (· ≠ ·) b
      else l.destutter' (· ≠ ·) b ++ [a] := by
  induction l generalizing b with
  | nil =>
    by_cases h : b = a
    · simp [List.destutter', h]
    · simp [List.destutter', h]
  | cons c l ih =>
    rw [List.cons_append, List.getLast?_cons_cons]
    by_cases h : b ≠ c
    · rw [List.destutter'_cons_pos _ h, List.destutter'_cons_pos _ h, ih]
      by_cases hlast : (c :: l).getLast? = some a
      · rw [if_pos hlast, if_pos hlast]
      · rw [if_neg hlast, if_neg hlast, List.cons_append]
    · rw [List.destutter'_cons_neg _ h, List.destutter'_cons_neg _ h, ih, not_not.1 h]

/-- An element is added to a list without repetitions unless it is the last one there already. -/
lemma destutter_concat (l : List α) (a : α) :
    (l ++ [a]).destutter (· ≠ ·) =
      if l.getLast? = some a then l.destutter (· ≠ ·) else l.destutter (· ≠ ·) ++ [a] := by
  cases l with
  | nil => simp
  | cons b l => exact destutter'_concat l a b

@[simp] lemma getLast?_destutter (l : List α) : (l.destutter (· ≠ ·)).getLast? = l.getLast? := by
  induction l using List.reverseRecOn with
  | nil => rfl
  | append_singleton l a ih =>
    rw [destutter_concat, List.getLast?_concat]
    by_cases h : l.getLast? = some a
    · rw [if_pos h, ih, h]
    · rw [if_neg h, List.getLast?_concat]

@[simp] lemma mem_destutter : b ∈ l.destutter (· ≠ ·) ↔ b ∈ l := by
  induction l using List.reverseRecOn with
  | nil => simp
  | append_singleton l a ih =>
    rw [destutter_concat, List.mem_append, List.mem_singleton]
    by_cases h : l.getLast? = some a
    · rw [if_pos h, ih, or_iff_left_of_imp]
      rintro rfl
      exact List.mem_of_getLast? h
    · rw [if_neg h, List.mem_append, ih, List.mem_singleton]

lemma destutter_concat_of_getLast? (h : l.getLast? = some a) :
    (l ++ [a]).destutter (· ≠ ·) = l.destutter (· ≠ ·) := by
  rw [destutter_concat, if_pos h]

lemma destutter_concat_congr {l' : List α} (h : l.destutter (· ≠ ·) = l'.destutter (· ≠ ·))
    (a : α) : (l ++ [a]).destutter (· ≠ ·) = (l' ++ [a]).destutter (· ≠ ·) := by
  rw [destutter_concat, destutter_concat, ← getLast?_destutter l, ← getLast?_destutter l', h]

lemma isPrefix_destutter_append (l l' : List α) :
    l.destutter (· ≠ ·) <+: (l ++ l').destutter (· ≠ ·) := by
  induction l' using List.reverseRecOn with
  | nil => simp
  | append_singleton l' a ih =>
    rw [← List.append_assoc, destutter_concat]
    by_cases h : (l ++ l').getLast? = some a
    · rw [if_pos h]
      exact ih
    · rw [if_neg h]
      exact ih.trans (List.prefix_append _ _)

lemma destutter_append_replicate (l : List α) (a : α) (n : Nat) :
    (l ++ [a] ++ List.replicate n a).destutter (· ≠ ·) = (l ++ [a]).destutter (· ≠ ·) := by
  induction n with
  | zero => simp
  | succ n ih =>
    have hlast := congrArg List.getLast? ih
    rw [getLast?_destutter, getLast?_destutter, List.getLast?_concat] at hlast
    rw [List.replicate_succ', ← List.append_assoc, destutter_concat_of_getLast? hlast, ih]

/-- A list is in order if it is without its repetitions. -/
lemma pairwise_of_destutter {R : α → α → Prop} [Std.Refl R]
    (h : (l.destutter (· ≠ ·)).Pairwise R) : l.Pairwise R := by
  induction l using List.reverseRecOn with
  | nil => exact .nil
  | append_singleton l a ih =>
    rw [destutter_concat] at h
    have hdestutter : (l.destutter (· ≠ ·)).Pairwise R ∧ ∀ b ∈ l.destutter (· ≠ ·), R b a := by
      by_cases hlast : l.getLast? = some a
      · rw [if_pos hlast] at h
        refine ⟨h, ?_⟩
        intro b hb
        obtain ⟨l', hl'⟩ := List.getLast?_eq_some_iff.1 ((getLast?_destutter l).trans hlast)
        have hrel := h.rel_getLast hb
        simpa [hl'] using hrel
      · rw [if_neg hlast, List.pairwise_append] at h
        exact ⟨h.1, by simpa using h.2.2⟩
    rw [List.pairwise_append]
    refine ⟨ih hdestutter.1, List.pairwise_singleton R a, ?_⟩
    simpa using hdestutter.2

end Destutter

namespace Parsing

variable {s : String} {r r' : Reader} {t : Token} {calls : List Rule} {task : Task}
  {ms : List Moment} {past : List Token} {e : Expr} {err : SyntaxError}
  {result : Except SyntaxError Expr}

/-! ### What the rules see -/

/-- The token that the rules are given at a moment, if they are. -/
def Moment.seen? (m : Moment) : Option Token :=
  match m.act with
  | .read t => if t.kind = .whitespace then none else some t
  | _ => none

/-- The tokens that the rules are given, one after another. -/
def seen (ms : List Moment) : List Token :=
  ms.filterMap Moment.seen?

@[simp] lemma seen_nil : seen [] = [] := rfl

lemma seen_cons (m : Moment) (ms : List Moment) : seen (m :: ms) = m.seen?.toList ++ seen ms := by
  rw [seen, List.filterMap_cons]
  cases m.seen? <;> rfl

@[simp] lemma seen_append (ms ns : List Moment) : seen (ms ++ ns) = seen ms ++ seen ns :=
  List.filterMap_append

lemma seen_call (ms : List Moment) (calls : List Rule) (r r' : Reader)
    (result : Except SyntaxError Expr) :
    seen (⟨.enter, calls, r⟩ :: (ms ++ [⟨.leave r result, calls, r'⟩])) = seen ms := by
  simp [seen_cons, Moment.seen?]

@[simp] lemma seen_putBack (calls : List Rule) (r : Reader) :
    seen [⟨.putBack, calls, r⟩] = [] := rfl

/-- The white space before a token is not for the rules. -/
lemma seen_nextMoments (hn : r.next = (t, r')) (calls : List Rule) :
    seen (nextMoments calls r) = [t] := by
  fun_induction nextMoments calls r with
  | case1 r hw hlt ih =>
    rw [Reader.next_of_whitespace hw] at hn
    simpa [seen_cons, Moment.seen?, hw] using ih hn
  | case2 r hw =>
    rw [Reader.next_of_not_whitespace hw] at hn
    obtain rfl : r.read.1 = t := congrArg Prod.fst hn
    simp [seen_cons, Moment.seen?, hw]

namespace Reader

/-- The visible tokens that came from the text, the latest one last. -/
def shown (r : Reader) : List Token :=
  r.scanned.filter fun t => t.kind ≠ .whitespace

@[simp] lemma shown_note (r : Reader) (op : Operator) (n : Nat) :
    (r.note op n).shown = r.shown := by
  simp [shown]

/-- But for repetitions of neighbours, the tokens are those that came from the text. -/
def Tells (r : Reader) (past : List Token) : Prop :=
  past.destutter (· ≠ ·) = r.shown.destutter (· ≠ ·)

lemma Tells.note (h : r.Tells past) (op : Operator) (n : Nat) : (r.note op n).Tells past := by
  rwa [Tells, shown_note]

lemma Tells.putBack (h : r.Tells past) (t : Token) : (r.putBack t).Tells past := h

/-- The next token repeats the last one if it was put back. -/
lemma Tells.next (h : r.Tells past) (hst : r.Steady s) (hn : r.next = (t, r')) :
    r'.Tells (past ++ [t]) := by
  rcases hst.next_cases hn with ⟨-, hk, hscanned, hlast⟩ | ⟨ws, hws, hscanned⟩
  · -- the parenthesis comes again, and the rules have seen it last
    have hshown : r.shown.getLast? = some t := by
      obtain ⟨ts, hts⟩ := List.getLast?_eq_some_iff.1 hlast
      simp [shown, hts, hk]
    have hpast : past.getLast? = some t := by
      rw [← getLast?_destutter, h, getLast?_destutter, hshown]
    rw [Tells, destutter_concat_of_getLast? hpast, h, shown, shown, hscanned]
  · -- the token comes from the text, and is the next one visible there
    have hvisible : t.kind ≠ .whitespace := by
      have hkind := r.kind_next_ne_whitespace
      rwa [hn] at hkind
    have hshown : r'.shown = r.shown ++ [t] := by
      simpa [shown, hscanned, hvisible] using hws
    rw [Tells, hshown]
    exact destutter_concat_congr h t

end Reader

/-- In the course of a task the rules see what comes from the text. -/
theorem Descends.tells (h : Descends calls task r ms r' result) (hst : r.Steady s)
    (htells : r.Tells past) : r'.Tells (past ++ seen ms) := by
  -- what was seen before a task is any past that agrees with the reader
  induction h generalizing past with
  | call h ih =>
    rw [seen_call]
    exact ih hst htells
  | expression hv hrest ihv ihrest =>
    rw [seen_append, ← List.append_assoc]
    exact ihrest (hv.leads.steady hst) (ihv hst htells)
  | expressionError hv ihv => exact ihv hst htells
  | operator hn hk hright hrest ihright ihrest =>
    have hright' := ihright ((Reader.leads_note hn).steady hst) ((htells.next hst hn).note _ _)
    have hrest' := ihrest ((hright.leads_of_note hn).steady hst) hright'
    simpa [seen_nextMoments hn] using hrest'
  | operatorError hn hk hright ihright =>
    have hright' := ihright ((Reader.leads_note hn).steady hst) ((htells.next hst hn).note _ _)
    simpa [seen_nextMoments hn] using hright'
  | rightParen hn hk =>
    rw [seen_append, seen_nextMoments hn, seen_putBack, List.append_nil]
    exact (htells.next hst hn).putBack _
  | stop hn hparen hop =>
    rw [seen_nextMoments hn]
    exact htells.next hst hn
  | group hn hk he hclose ihe =>
    have he' := ihe (hst.next hn) (htells.next hst hn)
    have hclose' := he'.next (he.leads.steady (hst.next hn)) hclose
    simpa [seen_nextMoments hn, seen_nextMoments hclose] using hclose'
  | groupError hn hk he ihe =>
    have he' := ihe (hst.next hn) (htells.next hst hn)
    simpa [seen_nextMoments hn] using he'
  | operand hn hk =>
    rw [seen_nextMoments hn]
    exact htells.next hst hn

lemma Reader.token_of_require_eq_error {kind : Token.Kind} {fault : SyntaxError.Fault}
    (h : r.require kind fault e t = .error err) : err.token = t := by
  rw [Reader.require] at h
  split at h
  · cases h
  · exact congrArg SyntaxError.token (Except.error.inj h).symm

lemma Reader.token_of_operand_eq_error (h : r.operand t = .error err) : err.token = t := by
  rw [Reader.operand] at h
  split at h
  · split at h
    · cases h
    · exact congrArg SyntaxError.token (Except.error.inj h).symm
  · exact congrArg SyntaxError.token (Except.error.inj h).symm

/-- If a token is rejected, it is the last one that the rules see. -/
lemma Descends.getLast?_seen (h : Descends calls task r ms r' result) (herr : result = .error err) :
    (seen ms).getLast? = some err.token := by
  induction h with
  | call h ih => rw [seen_call, ih herr]
  | expression hv hrest ihv ihrest => simp [ihrest herr]
  | expressionError hv ihv => exact ihv herr
  | operator hn hk hright hrest ihright ihrest => simp [ihrest herr]
  | operatorError hn hk hright ihright => simp [ihright herr]
  | rightParen hn hk => cases herr
  | stop hn hparen hop =>
    simp [seen_nextMoments hn, Reader.token_of_require_eq_error herr]
  | group hn hk he hclose ihe =>
    simp [seen_nextMoments hclose, Reader.token_of_require_eq_error herr]
  | groupError hn hk he ihe => simp [ihe herr]
  | operand hn hk =>
    simp [seen_nextMoments hn, Reader.token_of_operand_eq_error herr]

/-! ### The whole text -/

lemma visible_pairwise (s : String) :
    (Token.visible s).Pairwise fun t u => t.offset < u.offset := by
  rw [Token.visible, Token.tokens_eq]
  exact (Cursor.tokens_pairwise _ _).filter _

lemma destutter_visible (s : String) (n : Nat) :
    (Token.visible s ++ List.replicate n (Token.ending s)).destutter (· ≠ ·) = Token.visible s := by
  have hchain : (Token.visible s).IsChain (· ≠ ·) := by
    refine ((visible_pairwise s).imp ?_).isChain
    rintro t u hlt rfl
    exact lt_irrefl _ hlt
  calc (Token.visible s ++ List.replicate n (Token.ending s)).destutter (· ≠ ·)
      = (Token.visible s).destutter (· ≠ ·) := by
        rw [Token.visible_eq]
        exact destutter_append_replicate _ _ n
    _ = Token.visible s := List.destutter_of_isChain _ _ hchain

/-- What came from the text are its first visible tokens. -/
lemma Reader.Steady.isPrefix_shown (h : r.Steady s) :
    r.shown.destutter (· ≠ ·) <+: Token.visible s := by
  obtain ⟨n, hn⟩ := h.complete
  have hfilter := congrArg (List.filter fun t => t.kind ≠ .whitespace) hn
  have hend : (List.replicate n (Token.ending s)).filter (fun t => t.kind ≠ .whitespace) =
      List.replicate n (Token.ending s) := by
    simp [Token.ending]
  rw [List.filter_append, List.filter_append, hend] at hfilter
  rw [← destutter_visible s n, Token.visible, ← hfilter]
  exact isPrefix_destutter_append _ _

namespace Descent

lemma tells (h : Descent s ms r result) : r.Tells (seen ms) := by
  have hst := Reader.steady_ofText s
  have htells : (Reader.ofText s).Tells [] := rfl
  cases h with
  | finish he hn =>
    have hnext := (he.tells hst htells).next (he.leads.steady hst) hn
    simpa [seen_nextMoments hn] using hnext
  | error he => exact he.tells hst htells

lemma getLast?_seen_of_error (h : Descent s ms r (.error err)) :
    (seen ms).getLast? = some err.token := by
  generalize hresult : Except.error err = result at h
  cases h with
  | finish he hn => simp [seen_nextMoments hn, Reader.token_of_require_eq_error hresult.symm]
  | error he => exact he.getLast?_seen hresult.symm

lemma getLast?_seen_of_ok (h : Descent s ms r (.ok e)) :
    ∃ t, (seen ms).getLast? = some t ∧ t.kind = .eof := by
  generalize hresult : Except.ok e = result at h
  cases h with
  | finish he hn => simp [seen_nextMoments hn, Reader.of_require_eq_ok hresult.symm]
  | error he => cases hresult

/-- A text that is accepted is seen up to its end. -/
lemma destutter_seen_of_ok (h : Descent s ms r (.ok e)) :
    (seen ms).destutter (· ≠ ·) = Token.visible s := by
  obtain ⟨t, hlast, hk⟩ := h.getLast?_seen_of_ok
  obtain ⟨ts, hts⟩ := List.getLast?_eq_some_iff.1 ((getLast?_destutter _).trans hlast)
  obtain ⟨us, hus⟩ := h.steady.isPrefix_shown
  rw [← h.tells, hts] at hus
  have hsplit : Token.visible s = ts ++ t :: us := by simp [← hus]
  rw [hts, hsplit, visible_split hsplit hk]

lemma pairwise_seen (h : Descent s ms r result) :
    (seen ms).Pairwise fun t u => t.offset ≤ u.offset := by
  have : Std.Refl fun t u : Token => t.offset ≤ u.offset := ⟨fun t => le_rfl⟩
  have hfirst := h.steady.isPrefix_shown
  rw [← h.tells] at hfirst
  exact pairwise_of_destutter (((visible_pairwise s).imp Nat.le_of_lt).sublist hfirst.sublist)

end Descent

/-- However a text is read rule by rule, one token at most is put back at a time, and that is a
closing parenthesis. But for repetitions of neighbours the rules see the visible tokens of the text
in their order, all of them or those up to the one that is rejected. -/
theorem seen_of_descent (s : String) :
    (∃ ms r result, Descent s ms r result) ∧
    ∀ ms r result, Descent s ms r result →
      parse s = ⟨r.trace, result⟩ ∧
      (State.ofText s).Passes (entries ms) (.done r result) ∧
      (∀ m ∈ ms,
        (m.reader.pending = [] ∨ ∃ t, m.reader.pending = [t] ∧ t.kind = .rightParen ∧
          m.reader.scanned.getLast? = some t) ∧
        (m.act = .enter → m.reader.pending = []) ∧
        ∀ start e, m.act = .leave start (.ok e) → m.calls.head? = some .expression →
          (∃ t, m.reader.pending = [t] ∧ t.kind = .rightParen) ∨
          (m.reader.pending = [] ∧ m.reader.cursor.rest = [] ∧ m.reader.read.1.kind = .eof)) ∧
      (seen ms).destutter (· ≠ ·) = r.shown.destutter (· ≠ ·) ∧
      (seen ms).Pairwise (fun t u => t.offset ≤ u.offset) ∧
      match result with
      | .ok _ => (seen ms).destutter (· ≠ ·) = Token.visible s
      | .error err => (seen ms).destutter (· ≠ ·) <+: Token.visible s ∧
          (seen ms).getLast? = some err.token := by
  refine ⟨exists_descent s, ?_⟩
  intro ms r result h
  have hfirst := h.steady.isPrefix_shown
  rw [← h.tells] at hfirst
  refine ⟨parse_eq_of_descent h, h.passes, ?_, h.tells, h.pairwise_seen, ?_⟩
  · intro m hm
    have hsound := h.sound m hm
    refine ⟨hsound.steady.pending, hsound.enter, ?_⟩
    intro start e hact hrule
    exact hsound.steady.pending_of_ended ((hsound.leave start e hact).2 hrule)
  · cases result with
    | ok e => exact h.destutter_seen_of_ok
    | error err => exact ⟨hfirst, h.getLast?_seen_of_error⟩

end Parsing

end Calculator
