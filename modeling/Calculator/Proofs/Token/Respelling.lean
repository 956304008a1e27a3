import Calculator.Proofs.Calculation.WhiteSpace
import Calculator.Proofs.Token.Partition

/-!
# Texts put together from tokens

From the kinds and the literals of its tokens a text can be put together again, with one space for
each stretch of white space. It is not the same text, but it has tokens of the same kinds and with
the same literals: a space is followed by what is not blank, and a word by what does not continue
it, just as before.
-/

namespace Calculator

variable {c : Char} {cs w : List Char}

namespace Token

/-- What is written for a token of this kind and with this literal. -/
def Kind.spelling (kind : Kind) (literal : String) : String :=
  if kind = .whitespace then " " else literal

/-- The text that is put together from kinds and literals. -/
def spell (content : List (Kind × String)) : String :=
  .join (content.map fun p => p.1.spelling p.2)

lemma toList_spell_cons (kind : Kind) (literal : String) (content : List (Kind × String)) :
    (spell ((kind, literal) :: content)).toList =
      (kind.spelling literal).toList ++ (spell content).toList := by
  simp [spell, String.toList_join]

end Token

namespace Cursor

/-! ### Kinds and literals -/

/-- The kinds and the literals of all tokens of a text. -/
def listing (cs : List Char) : List (Token.Kind × String) :=
  Token.content (tokens ⟨cs, 0⟩)

/-- Where a text starts does not show in the kinds and the literals of its tokens. -/
lemma content_tokens (cs : List Char) (n : Nat) :
    Token.content (tokens ⟨cs, n⟩) = listing cs := by
  have hcons (t : Token) (ts : List Token) :
      Token.content (t :: ts) = (t.kind, t.literal) :: Token.content ts := rfl
  suffices h : ∀ m, Token.content (tokens ⟨cs, n⟩) = Token.content (tokens ⟨cs, m⟩) from h 0
  intro m
  induction cs using scan_ind generalizing n m with
  | nil => simp [Token.content]
  | symbol c cs kind h ih => rw [tokens_symbol h, tokens_symbol h, hcons, hcons, ih]
  | blank c cs h _ ih => rw [tokens_blank h, tokens_blank h, hcons, hcons, ih]
  | word c cs h ih => rw [tokens_word h, tokens_word h, hcons, hcons, ih]

lemma listing_nil : listing [] = [(.eof, "")] := by
  simp [listing, Token.content]

lemma listing_symbol {kind : Token.Kind} (h : Token.Kind.ofSymbol? c = some kind) :
    listing (c :: cs) = (kind, .singleton c) :: listing cs := by
  rw [listing, tokens_symbol h, ← content_tokens cs]
  rfl

lemma listing_blank_run (hne : w ≠ []) (hw : ∀ c ∈ w, isBlank c = true)
    (hcs : ¬ StartsIn isBlank cs) : listing (w ++ cs) = (.whitespace, "") :: listing cs := by
  rw [listing, tokens_blank_run hne hw hcs, ← content_tokens cs]
  rfl

lemma listing_word_run (hne : w ≠ []) (hw : ∀ c ∈ w, isWordChar c = true)
    (hcs : ¬ StartsIn isWordChar cs) :
    listing (w ++ cs) = (.ofWord w, .ofList w) :: listing cs := by
  rw [listing, tokens_word_run hne hw hcs, ← content_tokens cs]
  rfl

lemma listing_blank (h : isBlank c = true) :
    listing (c :: cs) = (.whitespace, "") :: listing (cs.dropWhile isBlank) := by
  rw [listing, tokens_blank h, ← content_tokens (cs.dropWhile isBlank)]
  rfl

lemma listing_word (h : isWordChar c = true) :
    listing (c :: cs) =
      (.ofWord (c :: cs.takeWhile isWordChar), .ofList (c :: cs.takeWhile isWordChar)) ::
        listing (cs.dropWhile isWordChar) := by
  rw [listing, tokens_word h, ← content_tokens (cs.dropWhile isWordChar)]
  rfl

/-! ### Scanning a text that was put together -/

/-- The text that is put together from the tokens of a text. -/
def respell (cs : List Char) : List Char :=
  (Token.spell (listing cs)).toList

lemma respell_nil : respell [] = [] := by
  simp [respell, listing_nil, Token.spell, Token.Kind.spelling]

lemma respell_symbol {kind : Token.Kind} (h : Token.Kind.ofSymbol? c = some kind) :
    respell (c :: cs) = c :: respell cs := by
  have hk : kind ≠ .whitespace := by
    rintro rfl
    exact kind_ofSymbol?_ne_whitespace h
  simp [respell, listing_symbol h, Token.toList_spell_cons, Token.Kind.spelling, hk]

lemma respell_blank (h : isBlank c = true) :
    respell (c :: cs) = ' ' :: respell (cs.dropWhile isBlank) := by
  simp [respell, listing_blank h, Token.toList_spell_cons, Token.Kind.spelling]

lemma respell_word (h : isWordChar c = true) :
    respell (c :: cs) = c :: cs.takeWhile isWordChar ++ respell (cs.dropWhile isWordChar) := by
  simp [respell, listing_word h, Token.toList_spell_cons, Token.Kind.spelling,
    kind_ofWord_ne_whitespace]

/-- The first character is of the same class as before. -/
lemma startsIn_respell (cs : List Char) :
    (StartsIn isBlank (respell cs) ↔ StartsIn isBlank cs) ∧
      (StartsIn isWordChar (respell cs) ↔ StartsIn isWordChar cs) := by
  cases cs with
  | nil => simp [respell_nil]
  | cons c cs =>
    rcases char_cases c with ⟨kind, h⟩ | h | h
    · simp [respell_symbol h, startsIn_cons_iff]
    · have hspace : isBlank ' ' = true := rfl
      simp [respell_blank h, startsIn_cons_iff, h, hspace, not_isWordChar_of_isBlank]
    · simp [respell_word h, startsIn_cons_iff]

/-- A text that is put together from tokens has tokens of these kinds and with these literals. -/
theorem listing_respell (cs : List Char) : listing (respell cs) = listing cs := by
  induction cs using scan_ind with
  | nil => rw [respell_nil]
  | symbol c cs kind h ih => rw [respell_symbol h, listing_symbol h, listing_symbol h, ih]
  | blank c cs h _ ih =>
    have hrest : ¬ StartsIn isBlank (respell (cs.dropWhile isBlank)) := by
      rw [(startsIn_respell _).1]
      exact not_startsIn_dropWhile isBlank cs
    have hspace := listing_blank_run (w := [' ']) (List.cons_ne_nil _ _)
      (List.forall_mem_singleton.2 rfl) hrest
    rw [respell_blank h, listing_blank h, ← ih]
    exact hspace
  | word c cs h ih =>
    have hrest : ¬ StartsIn isWordChar (respell (cs.dropWhile isWordChar)) := by
      rw [(startsIn_respell _).2]
      exact not_startsIn_dropWhile isWordChar cs
    have hword : ∀ d ∈ c :: cs.takeWhile isWordChar, isWordChar d = true := by
      simpa [h] using fun d hd => List.mem_takeWhile_imp hd
    rw [respell_word h, listing_word h, listing_word_run (List.cons_ne_nil _ _) hword hrest, ih]

end Cursor

/-! ### Texts -/

namespace Token

lemma content_tokens (s : String) : content (tokens s) = Cursor.listing s.toList := by
  rw [tokens_eq]
  rfl

/-- The text that is put together from the tokens of a text. -/
def respell (s : String) : String :=
  spell (content (tokens s))

theorem content_tokens_respell (s : String) :
    content (tokens (respell s)) = content (tokens s) := by
  rw [content_tokens, content_tokens, respell, content_tokens]
  exact Cursor.listing_respell s.toList

lemma content_visible_eq_filter (s : String) :
    content (visible s) = (content (tokens s)).filter fun p => p.1 ≠ .whitespace := by
  rw [content, content, List.filter_map]
  rfl

end Token

/-- Texts whose tokens agree in their kinds and literals agree in these without white space. -/
lemma sameVisible_of_content {s s' : String}
    (h : Token.content (Token.tokens s) = Token.content (Token.tokens s')) : SameVisible s s' := by
  rw [SameVisible, Token.content_visible_eq_filter, Token.content_visible_eq_filter, h]

end Calculator
