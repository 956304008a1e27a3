import Calculator.Proofs.Calculation.Alike
import Calculator.Proofs.Token.Locality

/-!
# White space

White space does not matter between the tokens of a text. Two texts with the same visible tokens,
wherever these stand, are read and calculated alike. And blanks can be put in at every token,
exchanged for other blanks, or taken out unless that would join two words, without a change to the
visible tokens but for their places.
-/

namespace Calculator

variable {a b w : List Char} {n m : Nat} {s s' : String}

/-- The kinds and the literals of tokens. -/
def Token.content (ts : List Token) : List (Token.Kind × String) :=
  ts.map fun t => (t.kind, t.literal)

/-- Without their white space two texts have tokens of the same kinds and literals. -/
def SameVisible (s s' : String) : Prop :=
  Token.content (Token.visible s) = Token.content (Token.visible s')

/-- A text of spaces, tabulators and line feeds. -/
def IsWhiteSpace (w : String) : Prop :=
  ∀ c ∈ w.toList, isBlank c = true

/-- The spans of two visible tokens that have the same number of visible tokens before them. -/
def Corresponding (s s' : String) (sp sp' : Span) : Prop :=
  ∃ (k : Nat) (t t' : Token), (Token.visible s)[k]? = some t ∧ (Token.visible s')[k]? = some t' ∧
    sp = t.span ∧ sp' = t'.span

/-! ### Texts with the same content -/

lemma visible_alike (h : SameVisible s s') :
    List.Forall₂ (Token.Alike (Corresponding s s')) (Token.visible s) (Token.visible s') := by
  rw [List.forall₂_iff_get]
  constructor
  · simpa [Token.content] using congrArg List.length h
  · intro k hk hk'
    have hget := congrArg (fun ts => ts[k]?) h
    simp only [Token.content, List.getElem?_map, List.getElem?_eq_getElem hk,
      List.getElem?_eq_getElem hk', Option.map_some, Option.some.injEq, Prod.mk.injEq] at hget
    exact ⟨hget.1, hget.2, k, _, _, List.getElem?_eq_getElem hk, List.getElem?_eq_getElem hk',
      rfl, rfl⟩

lemma parse_alike_of_sameVisible (h : SameVisible s s') :
    Parsing.ResultAlike (Corresponding s s') (Expr.Alike (Corresponding s s')) s s'
      (parse s).result (parse s').result := by
  apply Parsing.parse_alike
  apply Parsing.Stack.feedAll_alike Expr.isCongruence_alike
  · exact Parsing.Stack.alike_empty
  · exact visible_alike h

/-- The content of tokens does not tell where they stand. -/
lemma Token.content_map_shift (m : Nat) (ts : List Token) :
    content (ts.map (shift m)) = content ts := by
  rw [content, List.map_map]
  rfl

lemma Token.of_content_cons {t : Token} {ts us : List Token}
    (h : content us = content (t :: ts)) :
    ∃ u vs, us = u :: vs ∧ u.kind = t.kind ∧ u.literal = t.literal ∧ content vs = content ts := by
  obtain ⟨u, vs, rfl, hu, hvs⟩ := List.map_eq_cons_iff.1 h
  obtain ⟨hkind, hlit⟩ := Prod.mk.inj hu
  exact ⟨u, vs, rfl, hkind, hlit, hvs⟩

lemma Token.of_content_append {ts ts' us : List Token} (h : content us = content (ts ++ ts')) :
    ∃ vs vs', us = vs ++ vs' ∧ content vs = content ts ∧ content vs' = content ts' := by
  rw [content, content, List.map_append] at h
  exact List.map_eq_append_iff.1 h

lemma Token.of_content_singleton {t : Token} {us : List Token} (h : content us = content [t]) :
    ∃ u, us = [u] ∧ u.kind = t.kind ∧ u.literal = t.literal := by
  obtain ⟨u, vs, rfl, hkind, hlit, hvs⟩ := of_content_cons h
  obtain rfl : vs = [] := List.map_eq_nil_iff.1 hvs
  exact ⟨u, rfl, hkind, hlit⟩

/-- Tokens with the same content derive the same expression, but for the places of its operators. -/
theorem Parsing.Derives.of_content {c : Category} {ts us : List Token} {e : Expr}
    (h : Derives c ts e) (hus : Token.content us = Token.content ts) :
    ∃ e', Derives c us e' ∧ e.Alike (fun _ _ => True) e' := by
  -- `us` is cut up as `ts` is in each rule of the grammar
  induction h generalizing us with
  | @number t x ht hx =>
    obtain ⟨u, rfl, hkind, hlit⟩ := Token.of_content_singleton hus
    exact ⟨_, .number (hkind.trans ht) (by rw [hlit, hx]), .number x⟩
  | group hl h hr ih =>
    obtain ⟨l, us, rfl, hkind, -, htail⟩ := Token.of_content_cons hus
    obtain ⟨us, vs, rfl, hinner, hvs⟩ := Token.of_content_append htail
    obtain ⟨r, rfl, hkind', -⟩ := Token.of_content_singleton hvs
    obtain ⟨e', hd, ha⟩ := ih hinner
    exact ⟨e', .group (hkind.trans hl) hd (hkind'.trans hr), ha⟩
  | ofValue h ih =>
    obtain ⟨e', hd, ha⟩ := ih hus
    exact ⟨e', .ofValue hd, ha⟩
  | mul hl ht hop hr ihl ihr =>
    obtain ⟨us, vs, rfl, hleft, hvs⟩ := Token.of_content_append hus
    obtain ⟨t, vs, rfl, hkind, -, hright⟩ := Token.of_content_cons hvs
    obtain ⟨left, hdl, hal⟩ := ihl hleft
    obtain ⟨right, hdr, har⟩ := ihr hright
    exact ⟨_, hdl.mul (hkind.trans ht) hop hdr, .binary _ hal har trivial⟩
  | ofTerm h ih =>
    obtain ⟨e', hd, ha⟩ := ih hus
    exact ⟨e', .ofTerm hd, ha⟩
  | add hl ht hop hr ihl ihr =>
    obtain ⟨us, vs, rfl, hleft, hvs⟩ := Token.of_content_append hus
    obtain ⟨t, vs, rfl, hkind, -, hright⟩ := Token.of_content_cons hvs
    obtain ⟨left, hdl, hal⟩ := ihl hleft
    obtain ⟨right, hdr, har⟩ := ihr hright
    exact ⟨_, hdl.add (hkind.trans ht) hop hdr, .binary _ hal har trivial⟩

/-! ### The content of composed texts -/

namespace Cursor

/-- The kinds and the literals of the lexemes of a text. -/
def content (cs : List Char) : List (Token.Kind × String) :=
  Token.content (lexemes ⟨cs, 0⟩)

lemma content_lexemes (cs : List Char) (n : Nat) :
    Token.content (lexemes ⟨cs, n⟩) = content cs := by
  rw [← Nat.zero_add n, lexemes_add, Token.content_map_shift]
  rfl

lemma content_append (h : ¬ Joined isWordChar a b) : content (a ++ b) = content a ++ content b := by
  rw [content, lexemes_append h, Token.content, List.map_append]
  exact congrArg (content a ++ ·) (content_lexemes b _)

lemma content_of_blank (hw : ∀ c ∈ w, isBlank c = true) : content w = [] := by
  rw [content, lexemes_of_blank hw]
  rfl

/-- Blanks between two texts do not matter, unless they are all that keeps two words apart. -/
lemma content_between (hw : ∀ c ∈ w, isBlank c = true)
    (h : w ≠ [] ∨ ¬ Joined isWordChar a b) : content (a ++ w ++ b) = content a ++ content b := by
  have hright : ¬ Joined isWordChar w b := by
    intro hj
    apply not_endsIn_of_forall _ hj.1
    intro c hc
    exact not_isWordChar_of_isBlank (hw c hc)
  have hleft : ¬ Joined isWordChar a (w ++ b) := by
    cases w with
    | nil => exact h.resolve_left (not_not_intro rfl)
    | cons c w =>
      exact not_joined_cons (not_isWordChar_of_isBlank (hw c List.mem_cons_self)) a (w ++ b)
  rw [List.append_assoc, content_append hleft, content_append hright, content_of_blank hw,
    List.nil_append]

/-- Between two words on both sides of a run of blanks there are two word tokens on both sides of
the token at its start. -/
lemma isWord_of_joined {us vs : List Token} {t : Token} (hw : ∀ c ∈ w, isBlank c = true)
    (hne : w ≠ []) (h : tokens ⟨a ++ (w ++ b), n⟩ = us ++ t :: vs)
    (ht : t.offset = n + String.utf8Len a) (hj : Joined isWordChar a b) :
    (∃ u ∈ us.getLast?, u.IsWord) ∧ ∃ v ∈ vs.head?, v.IsWord := by
  obtain ⟨rfl, hsplit⟩ := tokens_split h ht
  refine ⟨isWord_getLast_tokens hj.1 n, ?_⟩
  obtain ⟨c, w, rfl⟩ := List.exists_cons_of_ne_nil hne
  obtain ⟨d, ds, rfl, hd⟩ := hj.2.exists_cons
  have hdblank : isBlank d = false := (isWordChar_eq_true_iff.1 hd).1
  have hrest : ∀ c ∈ w, isBlank c = true := by
    intro c hc
    exact hw c (List.mem_cons_of_mem _ hc)
  have hdrop : (w ++ d :: ds).dropWhile isBlank = d :: ds := by
    rw [List.dropWhile_append_of_pos hrest, List.dropWhile_cons_of_neg (by simp [hdblank])]
  rw [List.cons_append, tokens_blank (hw c List.mem_cons_self), hdrop] at hsplit
  rw [(List.cons.inj hsplit).2]
  exact isWord_head_tokens hj.2 _

end Cursor

lemma content_visible (s : String) :
    Token.content (Token.visible s) = Cursor.content s.toList ++ [(.eof, "")] := by
  rw [Token.visible_eq, Token.content, List.map_append]
  rfl

/-! ### Changing white space -/

lemma sameVisible_insert {a w b : String} (hw : IsWhiteSpace w)
    (h : ∃ t ∈ Token.tokens (a ++ b), t.offset = a.utf8ByteSize) :
    SameVisible (a ++ w ++ b) (a ++ b) := by
  obtain ⟨t, ht, hoff⟩ := h
  rw [Token.tokens_eq, Cursor.ofText, String.toList_append] at ht
  rw [← String.utf8Len_toList, ← Nat.zero_add (String.utf8Len _)] at hoff
  have hab := (Cursor.apart_of_startsAt ⟨t, ht, hoff⟩).2
  simp only [SameVisible, content_visible, String.toList_append]
  rw [Cursor.content_between hw (.inr hab), Cursor.content_append hab]

lemma sameVisible_exchange {a w w' b : String} (hw : IsWhiteSpace w) (hne : w ≠ "")
    (hw' : IsWhiteSpace w') (hne' : w' ≠ "") : SameVisible (a ++ w' ++ b) (a ++ w ++ b) := by
  have hlist {v : String} (hv : v ≠ "") : v.toList ≠ [] := by simpa using hv
  simp only [SameVisible, content_visible, String.toList_append]
  rw [Cursor.content_between hw (.inl (hlist hne)), Cursor.content_between hw' (.inl (hlist hne'))]

lemma sameVisible_remove {a w b : String} {us vs : List Token} {t : Token} (hw : IsWhiteSpace w)
    (h : Token.tokens (a ++ w ++ b) = us ++ t :: vs) (ht : t.offset = a.utf8ByteSize)
    (hwords : ¬ ((∃ u ∈ us.getLast?, u.IsWord) ∧ ∃ v ∈ vs.head?, v.IsWord)) :
    SameVisible (a ++ b) (a ++ w ++ b) := by
  by_cases hempty : w = ""
  · rw [hempty, String.append_empty]
    rfl
  · have hne : w.toList ≠ [] := by simpa using hempty
    rw [Token.tokens_eq, Cursor.ofText, String.toList_append, String.toList_append,
      List.append_assoc] at h
    rw [← String.utf8Len_toList, ← Nat.zero_add (String.utf8Len _)] at ht
    have hab : ¬ Joined isWordChar a.toList b.toList := by
      intro hj
      exact hwords (Cursor.isWord_of_joined hw hne h ht hj)
    simp only [SameVisible, content_visible, String.toList_append]
    rw [Cursor.content_between hw (.inl hne), Cursor.content_append hab]

/-- Texts with the same visible tokens are read and calculated alike, and white space can be
changed as long as no words are joined: put in where a token starts, exchanged, or taken out. -/
theorem alike_of_white_space :
    (∀ s s' : String, SameVisible s s' →
      Parsing.ResultAlike (Corresponding s s') (Expr.Alike (Corresponding s s')) s s'
        (parse s).result (parse s').result ∧
      OutcomeAlike (Corresponding s s') s s' (calculate s) (calculate s')) ∧
    (∀ a w b : String, IsWhiteSpace w →
      (∃ t ∈ Token.tokens (a ++ b), t.offset = a.utf8ByteSize) →
      SameVisible (a ++ w ++ b) (a ++ b)) ∧
    (∀ a w w' b : String, IsWhiteSpace w → w ≠ "" → IsWhiteSpace w' → w' ≠ "" →
      SameVisible (a ++ w' ++ b) (a ++ w ++ b)) ∧
    ∀ (a w b : String) (us vs : List Token) (t : Token), IsWhiteSpace w →
      Token.tokens (a ++ w ++ b) = us ++ t :: vs → t.offset = a.utf8ByteSize →
      ¬ ((∃ u ∈ us.getLast?, u.IsWord) ∧ ∃ v ∈ vs.head?, v.IsWord) →
      SameVisible (a ++ b) (a ++ w ++ b) := by
  refine ⟨?_, ?_, ?_, ?_⟩
  · intro s s' h
    have hparse := parse_alike_of_sameVisible h
    constructor
    · exact hparse
    · apply calculate_alike
      exact hparse.mono fun e e' => Expr.Alike.evalAlike
  · intro a w b hw h
    exact sameVisible_insert hw h
  · intro a w w' b hw hne hw' hne'
    exact sameVisible_exchange hw hne hw' hne'
  · intro a w b us vs t hw h ht hwords
    exact sameVisible_remove hw h ht hwords

theorem alike_of_white_space_quotient :
    SameVisible "1 + 2\t/0" " 1+2/ \n0" ∧
      OutcomeAlike (Corresponding "1 + 2\t/0" " 1+2/ \n0") "1 + 2\t/0" " 1+2/ \n0"
        (calculate "1 + 2\t/0") (calculate " 1+2/ \n0") := by
  have h : SameVisible "1 + 2\t/0" " 1+2/ \n0" := by
    rw [SameVisible]
    decide +kernel
  exact ⟨h, (alike_of_white_space.1 _ _ h).2⟩

end Calculator
