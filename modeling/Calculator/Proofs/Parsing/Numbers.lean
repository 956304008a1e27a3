import Calculator.Proofs.Expr.Equality
import Calculator.Proofs.Number.Reading
import Calculator.Proofs.Parsing.Rejection
import Calculator.Proofs.Token.Seam
import Calculator.Proofs.Token.Words

/-!
# The numbers of an expression

A number token that is more than a point reads as a number, and never as one with a minus sign.
Words that read as numbers in other ways are no number tokens, and no expression has them. So the
numbers of an expression that was read are numbers without a minus sign, which is why it is equal to
itself.
-/

namespace Calculator

variable {a b s w : String} {cs : List Char} {t u : Token} {ts : List Token} {e : Expr}
  {x : Number}

/-- A number, and one whose sign bit is clear. -/
def Number.IsUnsigned (x : Number) : Prop :=
  x.isNaN = false ∧ Number.signBit x.toBits = false

/-! ### Number tokens -/

lemma isUnsigned_of_plain (h : isPlainNumeral cs = true) (hne : cs ≠ [])
    (hx : Numeral.read? cs = some x) : x.IsUnsigned := by
  rw [Numeral.read?_of_plain h hne, Option.map_eq_some_iff] at hx
  obtain ⟨d, -, rfl⟩ := hx
  have hsign := Number.sign?_toFloat d
  exact ⟨Number.isNaN_eq_false hsign, Number.signBit_eq_false hsign⟩

lemma isUnsigned_of_mem_visible (ht : t ∈ Token.visible s) (hk : t.kind = .number)
    (hx : Number.ofText? t.literal = some x) : x.IsUnsigned := by
  obtain ⟨-, hfits⟩ := Token.isStretch_of_mem_visible ht
  rw [hk] at hfits
  obtain ⟨hword, hnumeral⟩ := hfits
  rw [← String.ofList_toList (s := t.literal)] at hword hnumeral
  exact isUnsigned_of_plain (isNumeralText_iff.1 hnumeral) (isWordText_iff.1 hword).1 hx

lemma value?_of_kind (hk : t.kind = .number) : t.value? = Number.ofText? t.literal := by
  rw [Token.value?, hk]

lemma text_of_kind (hk : t.kind = .number) : t.text =
    "NUMBER " ++ t.literal ++ " " ++ ((Number.ofText? t.literal).map Number.text).getD "null" := by
  rw [Token.text, value?_of_kind hk, Token.literalText, hk]
  rfl

/-! ### Text tokens -/

lemma Parsing.Nests.kind_ne_text (h : Nests ts e) : ∀ t ∈ ts, t.kind ≠ .text := by
  induction h with
  | number ht hx => simp [ht]
  | group hl h hr ih => simpa [hl, hr, or_imp, forall_and] using ih
  | binary hl ht hr ihl ihr => simpa [ht, or_imp, forall_and] using ⟨ihl, ihr⟩

/-- A text with a text token is no expression. -/
lemma exists_error_of_text (ht : t ∈ (Cursor.ofText s).lexemes) (hk : t.kind = .text) :
    ∃ e, (parse s).result = .error e := by
  cases h : (parse s).result with
  | ok e => exact absurd hk ((Parsing.parse_eq_ok_iff.1 h).nests.kind_ne_text t ht)
  | error e => exact ⟨e, rfl⟩

/-- A word that is no numeral is a text token, wherever it stands. -/
lemma text_mem_lexemes (hw : IsWordText w) (hnumeral : ¬ IsNumeralText w)
    (ha : ¬ EndsIn isWordChar a.toList) (hb : ¬ StartsIn isWordChar b.toList) :
    ⟨.text, w, a.utf8ByteSize⟩ ∈ (Cursor.ofText (a ++ w ++ b)).lexemes := by
  rw [← String.ofList_toList (s := w), isWordText_iff] at hw
  have hrun : Cursor.tokens ⟨w.toList ++ b.toList, String.utf8Len a.toList⟩ =
      ⟨.text, w, a.utf8ByteSize⟩ ::
        Cursor.tokens ⟨b.toList, String.utf8Len a.toList + String.utf8Len w.toList⟩ := by
    rw [Cursor.tokens_word_run hw.1 hw.2 hb, Cursor.ofWord_toList, if_neg hnumeral,
      String.ofList_toList, ← String.utf8Len_toList]
  have happ : (Cursor.ofText (a ++ w ++ b)).lexemes = Cursor.lexemes ⟨a.toList, 0⟩ ++
      Cursor.lexemes ⟨w.toList ++ b.toList, String.utf8Len a.toList⟩ := by
    rw [Cursor.ofText, String.toList_append, String.toList_append, List.append_assoc,
      Cursor.lexemes_append (fun h => ha h.1), Nat.zero_add]
  rw [happ, Cursor.lexemes, Cursor.lexemes, hrun]
  simp

/-! ### Numbers that are read -/

lemma Parsing.Stack.of_feed_eq_invalidNumber {st : Stack}
    (h : st.feed t = .reject .invalidNumber u) : t.kind = .number ∧ t.value? = none := by
  rcases st with ⟨frames, _ | left⟩
  · simp only [feed, feedValue] at h
    split at h
    · cases h
    · next hk =>
      split at h
      · cases h
      · next hx => exact ⟨hk, hx⟩
    · cases h
  · simp only [feed, feedOperator] at h
    split at h
    · split at h <;> cases h
    · split at h <;> cases h
    · cases h
    · cases h

/-- The one literal that is refused as a number is the point. -/
lemma literal_of_invalidNumber {e : SyntaxError} (h : (parse s).result = .error e)
    (hfault : e.fault = .invalidNumber) : e.token.literal = "." := by
  obtain ⟨-, us, vs, st, hvisible, -, hfeed⟩ := Parsing.parse_eq_error_iff.1 h
  rw [hfault] at hfeed
  obtain ⟨hk, hnone⟩ := Parsing.Stack.of_feed_eq_invalidNumber hfeed
  have hmem : e.token ∈ Token.visible s := by simp [hvisible]
  exact (Parsing.value?_of_visible hmem hk).1 hnone

/-- Each number of an expression is that of a number token. -/
lemma Parsing.Nests.exists_of_mem_inOrder (h : Nests ts e)
    (hx : .number x ∈ e.inOrder) :
    ∃ t ∈ ts, t.kind = .number ∧ Number.ofText? t.literal = some x := by
  obtain ⟨hlength, hgives⟩ := List.forall₂_iff_get.1 h.inOrder
  obtain ⟨i, hi, hget⟩ := List.getElem_of_mem hx
  have hi' : i < (ts.filter Token.isItem).length := hlength ▸ hi
  have hgive : Token.Gives (ts.filter Token.isItem)[i] e.inOrder[i] := hgives i hi' hi
  rw [hget] at hgive
  cases hgive with
  | number ht hx => exact ⟨_, List.mem_of_mem_filter (List.getElem_mem hi'), ht, hx⟩

lemma isUnsigned_of_mem_inOrder (h : (parse s).result = .ok e) (hx : .number x ∈ e.inOrder) :
    x.IsUnsigned := by
  obtain ⟨t, ht, hk, hread⟩ := (Parsing.parse_eq_ok_iff.1 h).nests.exists_of_mem_inOrder hx
  exact isUnsigned_of_mem_visible (Token.mem_visible_iff.2 (.inl ht)) hk hread

/-- The point alone is the one numeral that is refused as a number. All others are numbers without
a minus sign, and an expression that was read has no other numbers, so it is equal to itself. What
else reads as a number, a name or a numeral with an exponent, is a text token in every text. -/
theorem numbers_of_tokens :
    (∀ s, ∀ t ∈ Token.tokens s, t.kind = .number →
      (Number.ofText? t.literal = none ↔ t.literal = ".") ∧
      (t.literal = "." → t.text = "NUMBER . null") ∧
      ∀ x, Number.ofText? t.literal = some x →
        t.text = "NUMBER " ++ t.literal ++ " " ++ x.text ∧ x.IsUnsigned) ∧
    (∀ w, IsWordText w → (Number.ofText? w ≠ none ↔
      (IsNumeralText w ∧ w ≠ ".") ∨ IsNameText w ∨ IsExponentText w)) ∧
    (∀ a w b, IsWordText w → ¬ IsNumeralText w →
      ¬ EndsIn (· ∉ [' ', '\t', '\n', '(', ')', '+', '-', '*', '/']) a.toList →
      ¬ StartsIn (· ∉ [' ', '\t', '\n', '(', ')', '+', '-', '*', '/']) b.toList →
      ⟨.text, w, a.utf8ByteSize⟩ ∈ Token.tokens (a ++ w ++ b) ∧
        ∃ e, (parse (a ++ w ++ b)).result = .error e) ∧
    (∀ s e, (parse s).result = .error e → e.fault = .invalidNumber → e.token.literal = ".") ∧
    ∀ s e, (parse s).result = .ok e →
      (∀ x, .number x ∈ e.inOrder → x.IsUnsigned) ∧ (e == e) = true ∧
        ∀ e', (parse s).result = .ok e' → (e == e') = true := by
  refine ⟨?_, fun w => ofText?_ne_none_iff_of_isWordText, ?_, fun s e => literal_of_invalidNumber,
    ?_⟩
  · intro s t ht hk
    have hvisible : t ∈ Token.visible s := List.mem_filter.2 ⟨ht, by simp [hk]⟩
    have hnone := Parsing.value?_of_visible hvisible hk
    rw [value?_of_kind hk] at hnone
    refine ⟨hnone, ?_, ?_⟩
    · intro hpoint
      rw [text_of_kind hk, hnone.2 hpoint, hpoint]
      rfl
    · intro x hx
      rw [text_of_kind hk, hx]
      exact ⟨rfl, isUnsigned_of_mem_visible hvisible hk hx⟩
  · intro a w b hw hnumeral ha hb
    rw [← isWordChar_eq] at ha hb
    have hmem := text_mem_lexemes hw hnumeral ha hb
    rw [Token.tokens_eq]
    exact ⟨List.mem_of_mem_filter hmem, exists_error_of_text hmem rfl⟩
  · -- numbers without a minus sign are none of them NaN, the one number that is not equal to itself
    intro s e h
    have hunsigned (x : Number) (hx : .number x ∈ e.inOrder) := isUnsigned_of_mem_inOrder h hx
    have hself : (e == e) = true := Expr.beq_self_iff.2 fun x hx => (hunsigned x hx).1
    refine ⟨hunsigned, hself, ?_⟩
    intro e' h'
    rw [h] at h'
    cases h'
    exact hself

/-- A product with a plain numeral, one with a point alone, and one with an exponent. -/
theorem numbers_of_tokens_products :
    let e : Expr := .binary .mul (.number 7) (.number 0.5) ⟨1, 1⟩
    let p : SyntaxError := ⟨.invalidNumber, ⟨.number, ".", 2⟩, "7*."⟩
    (⟨.number, ".5", 2⟩ ∈ Token.tokens "7*.5" ∧
      (⟨.number, ".5", 2⟩ : Token).text = "NUMBER .5 0.5" ∧ Number.IsUnsigned 0.5) ∧
    ((parse "7*.5").result = .ok e ∧ (e == e) = true) ∧
    ((parse "7*.").result = .error p ∧ p.token.literal = ".") ∧
    (IsWordText "1e5" ∧ Number.ofText? "1e5" ≠ none) ∧
    ⟨.text, "1e5", 2⟩ ∈ Token.tokens ("7*" ++ "1e5" ++ "") ∧
      ∃ e, (parse ("7*" ++ "1e5" ++ "")).result = .error e := by
  intro e p
  have ht : ⟨.number, ".5", 2⟩ ∈ Token.tokens "7*.5" := by decide +kernel
  have hx : Number.ofText? ".5" = some 0.5 := by decide +kernel
  have htext : "NUMBER " ++ ".5" ++ " " ++ Number.text 0.5 = "NUMBER .5 0.5" := by decide +kernel
  have he : (parse "7*.5").result = .ok e := by decide +kernel
  have hp : (parse "7*.").result = .error p := by decide +kernel
  have hword : IsWordText "1e5" := by simp [IsWordText]
  have hnumeral : ¬ IsNumeralText "1e5" := by simp [IsNumeralText]
  have hexponent : IsExponentText "1e5" :=
    ⟨['1'], 'e', ['5'], rfl, by simp [IsNumeralText], by simp, by simp, by simp, by simp, by simp⟩
  obtain ⟨hnumber, hread, htoken, hpoint, hparsed⟩ := numbers_of_tokens
  obtain ⟨hshown, hunsigned⟩ := (hnumber "7*.5" _ ht rfl).2.2 0.5 hx
  exact ⟨⟨ht, hshown.trans htext, hunsigned⟩, ⟨he, (hparsed _ e he).2.1⟩,
    ⟨hp, hpoint _ p hp rfl⟩, ⟨hword, (hread "1e5" hword).2 (.inr (.inr hexponent))⟩,
    htoken "7*" "1e5" "" hword hnumeral (by simp [EndsIn]) (by simp [StartsIn])⟩

end Calculator
