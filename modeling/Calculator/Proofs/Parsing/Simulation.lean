import Calculator.Proofs.Expr.Alike
import Calculator.Proofs.Parsing.Grammar
import Mathlib.Data.List.Forall2

/-!
# Reading two texts side by side

Stacks whose expressions are related stay so when tokens of the same kind and literal are fed to
both, and so do the results. The places of corresponding tokens are related by `R`, and the
expressions by any relation `E` that goes along with putting them together.
-/

namespace Calculator

variable {R : Span → Span → Prop} {E : Expr → Expr → Prop}

/-- Tokens that are equal up to their places. -/
structure Token.Alike (R : Span → Span → Prop) (t t' : Token) : Prop where
  kind_eq : t.kind = t'.kind
  literal_eq : t.literal = t'.literal
  span : R t.span t'.span

lemma Token.Alike.value?_eq {t t' : Token} (h : t.Alike R t') : t.value? = t'.value? := by
  rw [Token.value?, Token.value?, h.kind_eq, h.literal_eq]

namespace Parsing

variable {t t' : Token} {frames frames' : List Frame} {e e' left left' : Expr}

/-- Incomplete parts with related operands. -/
inductive Frame.Alike (R : Span → Span → Prop) (E : Expr → Expr → Prop) : Frame → Frame → Prop where
  | group : Alike R E .group .group
  | operand {left left' : Expr} {sp sp' : Span} (op : Operator) (hl : E left left')
      (hsp : R sp sp') : Alike R E (.operand left op sp) (.operand left' op sp')

/-- The same is wanted next, behind related expressions. -/
inductive Wanted.Alike (E : Expr → Expr → Prop) : Wanted → Wanted → Prop where
  | value : Alike E .value .value
  | operator {left left' : Expr} (h : E left left') : Alike E (.operator left) (.operator left')

/-- Stacks with related parts. -/
structure Stack.Alike (R : Span → Span → Prop) (E : Expr → Expr → Prop) (s s' : Stack) : Prop where
  frames : List.Forall₂ (Frame.Alike R E) s.frames s'.frames
  wanted : Wanted.Alike E s.wanted s'.wanted

/-- Verdicts of one kind, about related expressions or tokens. -/
inductive Verdict.Alike (R : Span → Span → Prop) (E : Expr → Expr → Prop) :
    Verdict → Verdict → Prop where
  | more {s s' : Stack} (h : s.Alike R E s') : Alike R E (.more s) (.more s')
  | accept {e e' : Expr} (h : E e e') : Alike R E (.accept e) (.accept e')
  | reject {t t' : Token} (fault : SyntaxError.Fault) (h : t.Alike R t') :
      Alike R E (.reject fault t) (.reject fault t')

namespace Stack

lemma alike_empty : empty.Alike R E empty :=
  ⟨.nil, .value⟩

variable (hE : Expr.IsCongruence R E)
include hE

lemma settle_alike (he : E e e') (hf : List.Forall₂ (Frame.Alike R E) frames frames') :
    (settle e frames).Alike R E (settle e' frames') := by
  cases hf with
  | nil => exact ⟨.nil, .operator he⟩
  | @cons f f' outer outer' hhead houter =>
    cases hhead with
    | group =>
      constructor
      · exact .cons .group houter
      · exact .operator he
    | @operand left left' sp sp' op hl hsp =>
      cases hop : op.isAdditive with
      | true =>
        rw [settle_of_isSettled (show IsSettled (.operand left op sp :: outer) from hop),
          settle_of_isSettled (show IsSettled (.operand left' op sp' :: outer') from hop)]
        constructor
        · exact .cons (.operand op hl hsp) houter
        · exact .operator he
      | false =>
        rw [settle_operand hop, settle_operand hop]
        constructor
        · exact houter
        · exact .operator (hE.binary op hl he hsp)

/-- What is completed down to the innermost parentheses is related, and there are parentheses on
both sides or on neither. -/
lemma close_alike (he : E e e') (hf : List.Forall₂ (Frame.Alike R E) frames frames') :
    E (close e frames).1 (close e' frames').1 ∧
      Option.Rel (List.Forall₂ (Frame.Alike R E)) (close e frames).2 (close e' frames').2 := by
  induction hf generalizing e e' with
  | nil => exact ⟨he, .none⟩
  | cons hhead houter ih =>
    cases hhead with
    | group => exact ⟨he, .some houter⟩
    | operand op hl hsp => exact ih (hE.binary op hl he hsp)

lemma feedValue_alike (ht : t.Alike R t') (hf : List.Forall₂ (Frame.Alike R E) frames frames') :
    (feedValue frames t).Alike R E (feedValue frames' t') := by
  rw [feedValue, feedValue, ← ht.kind_eq, ← ht.value?_eq]
  cases t.kind with
  | leftParen =>
    apply Verdict.Alike.more
    exact ⟨.cons .group hf, .value⟩
  | number =>
    cases t.value? with
    | some x =>
      apply Verdict.Alike.more
      exact settle_alike hE (hE.number x) hf
    | none => exact .reject _ ht
  | eof => exact .reject _ ht
  | whitespace => exact .reject _ ht
  | text => exact .reject _ ht
  | rightParen => exact .reject _ ht
  | operator op => exact .reject _ ht

lemma feedOperator_alike (ht : t.Alike R t') (he : E left left')
    (hf : List.Forall₂ (Frame.Alike R E) frames frames') :
    (feedOperator left frames t).Alike R E (feedOperator left' frames' t') := by
  obtain ⟨hclosed, houter⟩ := close_alike hE he hf
  rw [feedOperator, feedOperator, ← ht.kind_eq]
  generalize close left frames = c, close left' frames' = c' at hclosed houter
  obtain ⟨e, outer⟩ := c
  obtain ⟨e', outer'⟩ := c'
  cases t.kind with
  | eof =>
    cases houter with
    | none => exact .accept hclosed
    | some => exact .reject _ ht
  | rightParen =>
    cases houter with
    | none => exact .reject _ ht
    | some houter =>
      apply Verdict.Alike.more
      exact settle_alike hE hclosed houter
  | operator op =>
    apply Verdict.Alike.more
    exact ⟨.cons (.operand op he ht.span) hf, .value⟩
  | whitespace => exact .reject _ ht
  | text => exact .reject _ ht
  | number => exact .reject _ ht
  | leftParen => exact .reject _ ht

theorem feed_alike {s s' : Stack} (hs : s.Alike R E s') (ht : t.Alike R t') :
    (s.feed t).Alike R E (s'.feed t') := by
  obtain ⟨frames, wanted⟩ := s
  obtain ⟨frames', wanted'⟩ := s'
  obtain ⟨hf, hw⟩ := hs
  cases hw with
  | value => exact feedValue_alike hE ht hf
  | operator he => exact feedOperator_alike hE ht he hf

omit hE in
lemma feedAll_append_alike {s s' : Stack} {ts ts' us us' : List Token}
    (h : (s.feedAll ts).Alike R E (s'.feedAll ts'))
    (hmore : ∀ u u' : Stack, u.Alike R E u' → (u.feedAll us).Alike R E (u'.feedAll us')) :
    (s.feedAll (ts ++ us)).Alike R E (s'.feedAll (ts' ++ us')) := by
  rw [feedAll_append, feedAll_append]
  generalize s.feedAll ts = v, s'.feedAll ts' = v' at h
  cases h with
  | more hs => exact hmore _ _ hs
  | accept he => exact .accept he
  | reject fault ht => exact .reject fault ht

/-- Lists of tokens that are alike do the same to stacks that are alike. -/
theorem feedAll_alike {s s' : Stack} {ts ts' : List Token} (hs : s.Alike R E s')
    (hts : List.Forall₂ (Token.Alike R) ts ts') :
    (s.feedAll ts).Alike R E (s'.feedAll ts') := by
  induction hts generalizing s s' with
  | nil => exact .more hs
  | cons ht hts ih =>
    have h := feed_alike hE hs ht
    rw [feedAll, feedAll]
    generalize s.feed _ = v, s'.feed _ = v' at h
    cases h with
    | more hs => exact ih hs
    | accept he => exact .accept he
    | reject fault ht => exact .reject fault ht

end Stack

/-! ### Texts -/

/-- Results of reading two texts: related expressions, or errors that differ in the place of the
token and in the text only. -/
inductive ResultAlike (R : Span → Span → Prop) (E : Expr → Expr → Prop) (s s' : String) :
    Except SyntaxError Expr → Except SyntaxError Expr → Prop where
  | ok {e e' : Expr} (h : E e e') : ResultAlike R E s s' (.ok e) (.ok e')
  | error {t t' : Token} (fault : SyntaxError.Fault) (h : t.Alike R t') :
      ResultAlike R E s s' (.error ⟨fault, t, s⟩) (.error ⟨fault, t', s'⟩)

lemma ResultAlike.mono {E' : Expr → Expr → Prop} {s s' : String}
    {x x' : Except SyntaxError Expr} (hE : ∀ e e', E e e' → E' e e')
    (h : ResultAlike R E s s' x x') : ResultAlike R E' s s' x x' := by
  cases h with
  | ok h => exact .ok (hE _ _ h)
  | error fault h => exact .error fault h

/-- Texts whose visible tokens come out alike are read alike. -/
theorem parse_alike {s s' : String}
    (h : (Stack.empty.feedAll (Token.visible s)).Alike R E
      (Stack.empty.feedAll (Token.visible s'))) :
    ResultAlike R E s s' (parse s).result (parse s').result := by
  have hs := verdict_visible s
  have hs' := verdict_visible s'
  generalize Stack.empty.feedAll (Token.visible s) = v,
    Stack.empty.feedAll (Token.visible s') = v' at h hs hs'
  cases h with
  | more => cases hs
  | accept he =>
    rw [← Option.some.inj hs, ← Option.some.inj hs']
    exact .ok he
  | reject fault ht =>
    rw [← Option.some.inj hs, ← Option.some.inj hs']
    exact .error fault ht

end Parsing

end Calculator
