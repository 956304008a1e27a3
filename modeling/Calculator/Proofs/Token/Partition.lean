import Calculator.Proofs.Token.Locality
import Mathlib.Data.List.Chain

/-!
# Scanning as a partition

The tokens of a text cut it into stretches without gaps or overlaps: a token reaches from its own
offset to that of the next one, and what stands there is what a token of its kind may cover. Runs
are as long as possible, which means that no two tokens of the same class are neighbours. There is
one list of tokens with these properties, `eq_tokens_of_isPartition`.
-/

namespace Calculator

variable {c : Char} {cs a b w : List Char} {s v : String} {m n : Nat} {t : Token}
  {ts : List Token}

/-! ### Stretches of a text -/

/-- From the byte `m` up to the byte `n` of `s` stands `w`; both bytes are boundaries between
characters. -/
def IsStretch (s : String) (m n : Nat) (w : String) : Prop :=
  ∃ a b, s = a ++ w ++ b ∧ a.utf8ByteSize = m ∧ (a ++ w).utf8ByteSize = n

lemma isStretch_of_toList (h : s.toList = a ++ (w ++ b)) :
    IsStretch s (String.utf8Len a) (String.utf8Len a + String.utf8Len w) (.ofList w) := by
  refine ⟨.ofList a, .ofList b, ?_, ?_, ?_⟩
  · rw [← String.toList_inj, h]
    simp
  · simp [← String.utf8Len_toList]
  · simp [← String.utf8Len_toList]

lemma IsStretch.stop_eq (h : IsStretch s m n v) : n = m + v.utf8ByteSize := by
  obtain ⟨a, b, -, rfl, rfl⟩ := h
  exact String.utf8ByteSize_append

lemma IsStretch.stop_le (h : IsStretch s m n v) : n ≤ s.utf8ByteSize := by
  obtain ⟨a, b, rfl, -, rfl⟩ := h
  rw [String.utf8ByteSize_append (s := a ++ v)]
  exact Nat.le_add_right _ _

/-- A text splits at a byte in one way only. -/
lemma append_inj_of_utf8Len {a' b' : List Char} (h : a ++ b = a' ++ b')
    (hlen : String.utf8Len a = String.utf8Len a') : a = a' ∧ b = b' := by
  induction a generalizing a' with
  | nil =>
    cases a' with
    | nil => exact ⟨rfl, h⟩
    | cons c cs => exact absurd hlen.symm (mt String.utf8Len_eq_zero.1 (List.cons_ne_nil c cs))
  | cons c cs ih =>
    cases a' with
    | nil => exact absurd hlen (mt String.utf8Len_eq_zero.1 (List.cons_ne_nil c cs))
    | cons d ds =>
      rw [List.cons_append, List.cons_append] at h
      obtain ⟨rfl, htail⟩ := List.cons.inj h
      obtain ⟨rfl, rfl⟩ := ih htail (by simpa using hlen)
      exact ⟨rfl, rfl⟩

/-- The stretch that starts behind `a` is the start of what follows `a`. -/
lemma IsStretch.exists_append (h : IsStretch s (String.utf8Len a) n v)
    (hs : s.toList = a ++ b) :
    ∃ b', b = v.toList ++ b' ∧ n = String.utf8Len a + String.utf8Len v.toList := by
  obtain ⟨p, q, rfl, hp, rfl⟩ := h
  rw [← String.utf8Len_toList] at hp
  rw [String.toList_append, String.toList_append, List.append_assoc] at hs
  obtain ⟨rfl, rfl⟩ := append_inj_of_utf8Len hs hp
  exact ⟨q.toList, rfl, by simp [← String.utf8Len_toList]⟩

/-! ### What a token may cover -/

/-- A text without white space and without any character that is a token by itself. -/
def IsWordText (w : String) : Prop :=
  w ≠ "" ∧ ∀ c ∈ w.toList, c ∉ [' ', '\t', '\n', '(', ')', '+', '-', '*', '/']

/-- Nothing but digits, and at most one point among them. -/
def IsNumeralText (w : String) : Prop :=
  (∀ c ∈ w.toList, c.isDigit = true ∨ c = '.') ∧ w.toList.count '.' ≤ 1

/-- A token of this kind may cover `w`. -/
def Token.Kind.Fits : Kind → String → Prop
  | .eof, w => w = ""
  | .whitespace, w => w ≠ "" ∧ ∀ c ∈ w.toList, c = ' ' ∨ c = '\t' ∨ c = '\n'
  | .text, w => IsWordText w ∧ ¬ IsNumeralText w
  | .number, w => IsWordText w ∧ IsNumeralText w
  | .leftParen, w => w = "("
  | .rightParen, w => w = ")"
  | .operator op, w => w = .singleton op.symbol

/-- The token may cover `w`, and has it for its literal, unless it is white space. -/
def Token.Fits (t : Token) (w : String) : Prop :=
  t.literal = (if t.kind = .whitespace then "" else w) ∧ t.kind.Fits w

/-- Two tokens that may be neighbours: they are not both white space, and not both words. -/
def Token.Separate (t u : Token) : Prop :=
  ¬ (t.kind = .whitespace ∧ u.kind = .whitespace) ∧ ¬ (t.IsWord ∧ u.IsWord)

/-- Where a token ends that is followed by the tokens `ts`: at the first of them, or else at the end
of the text. -/
def Token.stop (s : String) (ts : List Token) : Nat :=
  (ts.head?.map Token.offset).getD s.utf8ByteSize

/-- Every token fits what stands between its own start and that of the next one. -/
def Token.Tile (s : String) : List Token → Prop
  | [] => True
  | t :: ts => (∃ w, IsStretch s t.offset (Token.stop s ts) w ∧ t.Fits w) ∧ Token.Tile s ts

/-- The tokens cut up the text from the byte `n` on. -/
structure Token.IsPartition (s : String) (n : Nat) (ts : List Token) : Prop where
  /-- There is one end token; it is the last one and stands at the end of the text. -/
  last : ∃ us t, ts = us ++ [t] ∧ t.kind = .eof ∧ t.offset = s.utf8ByteSize ∧
    ∀ u ∈ us, u.kind ≠ .eof
  first : ∀ t ∈ ts.head?, t.offset = n
  increasing : ts.Pairwise fun t u => t.offset < u.offset
  tile : Token.Tile s ts
  separate : ts.IsChain Token.Separate

/-! ### Classes of characters -/

lemma isBlank_iff : isBlank c = true ↔ c = ' ' ∨ c = '\t' ∨ c = '\n' := by
  simp [isBlank]

lemma isWordChar_iff : isWordChar c = true ↔
    c ∉ [' ', '\t', '\n', '(', ')', '+', '-', '*', '/'] := by
  have hsymbol : isSymbol c = true ↔ c ∈ ['(', ')', '+', '-', '*', '/'] := by
    rw [isSymbol]
    fun_cases Token.Kind.ofSymbol? c with
    | case1 => simp
    | case2 => simp
    | case3 c hl hr =>
      fun_cases Operator.ofSymbol? c <;> simp_all
  rw [isWordChar_eq_true_iff, ← Bool.not_eq_true, ← Bool.not_eq_true, isBlank_iff, hsymbol]
  simp [and_assoc]

lemma isNumeralText_iff : IsNumeralText (.ofList w) ↔ isPlainNumeral w = true := by
  simp [IsNumeralText, isPlainNumeral]

lemma isWordText_iff : IsWordText (.ofList w) ↔ w ≠ [] ∧ ∀ c ∈ w, isWordChar c = true := by
  simp [IsWordText, isWordChar_iff]

lemma not_startsIn_dropWhile (p : Char → Bool) (cs : List Char) :
    ¬ StartsIn p (cs.dropWhile p) := by
  rintro ⟨c, hc, hp⟩
  have := List.head?_dropWhile_not p cs
  rw [Option.mem_def.1 hc] at this
  simp [hp] at this

/-! ### The tokens are a partition -/

namespace Cursor

lemma fits_symbol {kind : Token.Kind} (h : Token.Kind.ofSymbol? c = some kind) :
    (⟨kind, .singleton c, n⟩ : Token).Fits (.singleton c) := by
  revert h
  fun_cases Token.Kind.ofSymbol? c with
  | case1 =>
    rintro ⟨⟩
    exact ⟨rfl, rfl⟩
  | case2 =>
    rintro ⟨⟩
    exact ⟨rfl, rfl⟩
  | case3 c hl hr =>
    intro h
    obtain ⟨op, hop, rfl⟩ := Option.map_eq_some_iff.1 h
    rw [Operator.ofSymbol?_eq_some_iff.1 hop]
    exact ⟨rfl, rfl⟩

lemma fits_blank (hne : w ≠ []) (hw : ∀ c ∈ w, isBlank c = true) :
    (⟨.whitespace, "", n⟩ : Token).Fits (.ofList w) := by
  refine ⟨rfl, by simpa using hne, ?_⟩
  intro c hc
  rw [String.toList_ofList] at hc
  exact isBlank_iff.1 (hw c hc)

lemma fits_word (hne : w ≠ []) (hw : ∀ c ∈ w, isWordChar c = true) :
    (⟨.ofWord w, .ofList w, n⟩ : Token).Fits (.ofList w) := by
  have hword : IsWordText (.ofList w) := isWordText_iff.2 ⟨hne, hw⟩
  cases hplain : isPlainNumeral w with
  | true =>
    have hkind : Token.Kind.ofWord w = .number := by simp [Token.Kind.ofWord, hplain]
    rw [hkind]
    exact ⟨rfl, hword, isNumeralText_iff.2 hplain⟩
  | false =>
    have hkind : Token.Kind.ofWord w = .text := by simp [Token.Kind.ofWord, hplain]
    rw [hkind]
    refine ⟨rfl, hword, ?_⟩
    rw [isNumeralText_iff, hplain]
    exact Bool.false_ne_true

lemma stop_tokens (s : String) (k : Cursor) : Token.stop s k.tokens = k.offset := by
  obtain ⟨ts, hts⟩ := k.exists_tokens_eq_cons
  simp [Token.stop, hts]

lemma tile_cons (hs : s.toList = a ++ (w ++ b)) (ht : t.offset = String.utf8Len a)
    (hfits : t.Fits (.ofList w))
    (h : Token.Tile s (tokens ⟨b, String.utf8Len (a ++ w)⟩)) :
    Token.Tile s (t :: tokens ⟨b, String.utf8Len a + String.utf8Len w⟩) := by
  rw [String.utf8Len_append] at h
  refine ⟨⟨.ofList w, ?_, hfits⟩, h⟩
  rw [stop_tokens, ht]
  exact isStretch_of_toList hs

theorem tile_tokens (hs : s.toList = a ++ b) : Token.Tile s (tokens ⟨b, String.utf8Len a⟩) := by
  induction b using scan_ind generalizing a with
  | nil =>
    rw [tokens_nil]
    refine ⟨⟨"", ?_, rfl, rfl⟩, trivial⟩
    have hstop : Token.stop s [] = String.utf8Len a := by
      rw [Token.stop, ← String.utf8Len_toList, hs, List.append_nil]
      rfl
    rw [hstop]
    exact isStretch_of_toList (w := []) hs
  | symbol c cs kind h ih =>
    have hsize : String.utf8Len [c] = c.utf8Size := by simp
    rw [tokens_symbol h, ← hsize]
    exact tile_cons (w := [c]) hs rfl (fits_symbol h) (ih (by simpa using hs))
  | blank c cs h _ ih =>
    have hsplit : s.toList = a ++ ((c :: cs.takeWhile isBlank) ++ cs.dropWhile isBlank) := by
      simpa using hs
    rw [tokens_blank h]
    refine tile_cons hsplit rfl (fits_blank (List.cons_ne_nil _ _) ?_) (ih (by simpa using hs))
    simpa [h] using fun d hd => List.mem_takeWhile_imp hd
  | word c cs h ih =>
    have hsplit : s.toList = a ++ ((c :: cs.takeWhile isWordChar) ++ cs.dropWhile isWordChar) := by
      simpa using hs
    rw [tokens_word h]
    refine tile_cons hsplit rfl (fits_word (List.cons_ne_nil _ _) ?_) (ih (by simpa using hs))
    simpa [h] using fun d hd => List.mem_takeWhile_imp hd

/-! ### Neighbours -/

lemma not_isWord_of_ofSymbol? {kind : Token.Kind} {l : String}
    (h : Token.Kind.ofSymbol? c = some kind) : ¬ (⟨kind, l, n⟩ : Token).IsWord := by
  revert h
  rw [Token.IsWord]
  fun_cases Token.Kind.ofSymbol? c with
  | case1 =>
    rintro ⟨⟩
    simp
  | case2 =>
    rintro ⟨⟩
    simp
  | case3 c hl hr =>
    intro h
    obtain ⟨op, -, rfl⟩ := Option.map_eq_some_iff.1 h
    simp

/-- The first token tells the class of the first character. -/
lemma kind_head_tokens {u : Token} (hu : u ∈ (tokens ⟨cs, n⟩).head?) :
    (u.kind = .whitespace ↔ StartsIn isBlank cs) ∧ (u.IsWord ↔ StartsIn isWordChar cs) := by
  cases cs with
  | nil =>
    rw [tokens_nil, List.head?_cons, Option.mem_some] at hu
    subst hu
    simp [StartsIn, Token.IsWord]
  | cons c cs =>
    rw [startsIn_cons_iff, startsIn_cons_iff]
    rcases char_cases c with ⟨kind, h⟩ | h | h
    · rw [tokens_symbol h, List.head?_cons, Option.mem_some] at hu
      subst hu
      have hblank : kind ≠ .whitespace := by
        rintro rfl
        exact kind_ofSymbol?_ne_whitespace h
      simp [hblank, not_isWord_of_ofSymbol? h, not_isBlank_of_ofSymbol? h,
        not_isWordChar_of_ofSymbol? h]
    · rw [tokens_blank h, List.head?_cons, Option.mem_some] at hu
      subst hu
      simp [Token.IsWord, h, not_isWordChar_of_isBlank h]
    · rw [tokens_word h, List.head?_cons, Option.mem_some] at hu
      subst hu
      have hblank : isBlank c = false := (isWordChar_eq_true_iff.1 h).1
      have hword := kind_ofWord_ne_whitespace (c :: cs.takeWhile isWordChar)
      simp only [h, hblank, hword, Bool.false_eq_true, iff_true, true_and]
      exact Token.isWord_of_kind rfl

/-- Behind a run stands no token of the same class. -/
lemma separate_of_run {p : Char → Bool} {u : Token} (hblank : t.kind = .whitespace → p = isBlank)
    (hword : t.IsWord → p = isWordChar) (hu : u ∈ (tokens ⟨cs.dropWhile p, n⟩).head?) :
    t.Separate u := by
  have hhead := kind_head_tokens hu
  constructor
  · rintro ⟨ht, hk⟩
    obtain rfl := hblank ht
    exact not_startsIn_dropWhile isBlank cs (hhead.1.1 hk)
  · rintro ⟨ht, hk⟩
    obtain rfl := hword ht
    exact not_startsIn_dropWhile isWordChar cs (hhead.2.1 hk)

theorem separate_tokens (cs : List Char) (n : Nat) :
    (tokens ⟨cs, n⟩).IsChain Token.Separate := by
  induction cs using scan_ind generalizing n with
  | nil => simp
  | symbol c cs kind h ih =>
    rw [tokens_symbol h]
    refine (ih _).cons ?_
    intro u _
    refine ⟨?_, fun hwords => not_isWord_of_ofSymbol? h hwords.1⟩
    rintro ⟨rfl, -⟩
    exact kind_ofSymbol?_ne_whitespace h
  | blank c cs h _ ih =>
    rw [tokens_blank h]
    refine (ih _).cons ?_
    intro u hu
    exact separate_of_run (fun _ => rfl) (by simp [Token.IsWord]) hu
  | word c cs h ih =>
    rw [tokens_word h]
    refine (ih _).cons ?_
    intro u hu
    refine separate_of_run ?_ (fun _ => rfl) hu
    intro hblank
    exact absurd hblank (kind_ofWord_ne_whitespace _)

/-- The tokens from a cursor on cut up what is left of the text. -/
theorem isPartition_tokens (hs : s.toList = a ++ b) :
    Token.IsPartition s (String.utf8Len a) (tokens ⟨b, String.utf8Len a⟩) where
  last := by
    obtain ⟨ts, hts, hne⟩ := tokens_eq_append b (String.utf8Len a)
    refine ⟨ts, _, hts, rfl, ?_, hne⟩
    rw [← String.utf8Len_toList, hs, String.utf8Len_append]
  first := by
    obtain ⟨ts, hts⟩ := exists_tokens_eq_cons ⟨b, String.utf8Len a⟩
    simp [hts]
  increasing := tokens_pairwise b _
  tile := tile_tokens hs
  separate := separate_tokens b _

/-! ### No other list is a partition -/

lemma tokens_blank_run (hne : w ≠ []) (hw : ∀ c ∈ w, isBlank c = true)
    (hb : ¬ StartsIn isBlank b) :
    tokens ⟨w ++ b, n⟩ = ⟨.whitespace, "", n⟩ :: tokens ⟨b, n + String.utf8Len w⟩ := by
  obtain ⟨c, w, rfl⟩ := List.exists_cons_of_ne_nil hne
  obtain ⟨hc, hw⟩ := List.forall_mem_cons.1 hw
  obtain ⟨htake, hdrop⟩ := run_exact hw hb
  rw [List.cons_append, tokens_blank hc, htake, hdrop]

lemma tokens_word_run (hne : w ≠ []) (hw : ∀ c ∈ w, isWordChar c = true)
    (hb : ¬ StartsIn isWordChar b) :
    tokens ⟨w ++ b, n⟩ = ⟨.ofWord w, .ofList w, n⟩ :: tokens ⟨b, n + String.utf8Len w⟩ := by
  obtain ⟨c, w, rfl⟩ := List.exists_cons_of_ne_nil hne
  obtain ⟨hc, hw⟩ := List.forall_mem_cons.1 hw
  obtain ⟨htake, hdrop⟩ := run_exact hw hb
  rw [List.cons_append, tokens_word hc, htake, hdrop]

open Classical in
lemma ofWord_toList (v : String) :
    Token.Kind.ofWord v.toList = if IsNumeralText v then .number else .text := by
  have hplain := isNumeralText_iff (w := v.toList)
  rw [String.ofList_toList] at hplain
  simp only [Token.Kind.ofWord, hplain]

/-- A token that fits its stretch and has a neighbour of another class is the one that is read. -/
lemma tokens_of_fits (hk : t.kind ≠ .eof) (hfits : t.Fits v)
    (hsep : ∀ u ∈ (tokens ⟨b, t.offset + String.utf8Len v.toList⟩).head?, t.Separate u) :
    tokens ⟨v.toList ++ b, t.offset⟩ =
      t :: tokens ⟨b, t.offset + String.utf8Len v.toList⟩ := by
  obtain ⟨u, hu⟩ := Option.isSome_iff_exists.1
    (List.isSome_head?.2 (tokens_ne_nil ⟨b, t.offset + String.utf8Len v.toList⟩))
  obtain ⟨hublank, huword⟩ := kind_head_tokens hu
  obtain ⟨hblank, hword⟩ := hsep u hu
  -- a word that has no word behind it is read to its end
  have hrun (ht : t.IsWord) (hv : IsWordText v) :
      tokens ⟨v.toList ++ b, t.offset⟩ = ⟨.ofWord v.toList, v, t.offset⟩ ::
        tokens ⟨b, t.offset + String.utf8Len v.toList⟩ := by
    rw [← String.ofList_toList (s := v), isWordText_iff] at hv
    rw [tokens_word_run hv.1 hv.2 fun hb => hword ⟨ht, huword.2 hb⟩, String.ofList_toList]
  obtain ⟨kind, literal, offset⟩ := t
  obtain ⟨hl, hfits⟩ := hfits
  cases kind with
  | eof => exact absurd rfl hk
  | whitespace =>
    obtain rfl : literal = "" := hl
    obtain ⟨hne, hv⟩ := hfits
    apply tokens_blank_run
    · simpa using hne
    · intro c hc
      exact isBlank_iff.2 (hv c hc)
    · intro hb
      exact hblank ⟨rfl, hublank.2 hb⟩
  | text =>
    obtain rfl : literal = v := hl
    obtain ⟨hv, hplain⟩ := hfits
    rw [hrun (.inr rfl) hv, ofWord_toList, if_neg hplain]
  | number =>
    obtain rfl : literal = v := hl
    obtain ⟨hv, hplain⟩ := hfits
    rw [hrun (.inl rfl) hv, ofWord_toList, if_pos hplain]
  | leftParen =>
    obtain rfl : literal = v := hl
    obtain rfl := hfits
    exact tokens_symbol rfl
  | rightParen =>
    obtain rfl : literal = v := hl
    obtain rfl := hfits
    exact tokens_symbol rfl
  | operator op =>
    obtain rfl : literal = v := hl
    obtain rfl := hfits
    cases op <;> exact tokens_symbol rfl

end Cursor

namespace Token

lemma IsPartition.eq_of_singleton (h : IsPartition s n [t]) :
    t = ⟨.eof, "", s.utf8ByteSize⟩ ∧ n = s.utf8ByteSize := by
  obtain ⟨us, u, hts, hu, huoff, -⟩ := h.last
  obtain ⟨rfl, rfl⟩ : us = [] ∧ u = t := by
    simpa [List.append_eq_singleton_iff] using hts.symm
  have hoff : u.offset = n := h.first u rfl
  obtain ⟨⟨w, -, hfits⟩, -⟩ := h.tile
  obtain ⟨kind, literal, offset⟩ := u
  cases hu
  cases huoff
  obtain ⟨hl, rfl⟩ := hfits
  cases hl
  exact ⟨rfl, hoff.symm⟩

/-- Behind its first token a partition goes on with a partition of the rest. -/
lemma IsPartition.tail (h : IsPartition s n (t :: ts)) (hne : ts ≠ []) :
    t.kind ≠ .eof ∧ IsPartition s (stop s ts) ts := by
  obtain ⟨us, u, hts, hu, huoff, hus⟩ := h.last
  cases us with
  | nil => exact absurd (List.cons.inj hts).2 hne
  | cons t' us =>
    obtain ⟨rfl, hrest⟩ := List.cons.inj hts
    refine ⟨hus t List.mem_cons_self, ?_⟩
    exact {
      last := ⟨us, u, hrest, hu, huoff, fun v hv => hus v (List.mem_cons_of_mem t hv)⟩
      first := by
        intro v hv
        rw [stop, Option.mem_def.1 hv]
        rfl
      increasing := h.increasing.of_cons
      tile := h.tile.2
      separate := h.separate.tail }

end Token

/-- A partition of what is left of a text consists of the tokens that are read there. -/
theorem eq_tokens_of_isPartition (hs : s.toList = a ++ b)
    (h : Token.IsPartition s (String.utf8Len a) ts) : ts = Cursor.tokens ⟨b, String.utf8Len a⟩ := by
  induction ts generalizing a b with
  | nil =>
    obtain ⟨us, t, hts, -⟩ := h.last
    exact absurd hts.symm (List.append_ne_nil_of_right_ne_nil us (List.cons_ne_nil t []))
  | cons t ts ih =>
    by_cases hts : ts = []
    · -- the last token is the end token, which is at the end of the text
      subst hts
      obtain ⟨rfl, ha⟩ := h.eq_of_singleton
      rw [← String.utf8Len_toList] at ha ⊢
      have hnil : a ++ b = s.toList ++ [] := by rw [hs, List.append_nil]
      obtain ⟨-, rfl⟩ := append_inj_of_utf8Len hnil ha
      rw [Cursor.tokens_nil, ha]
    · -- the token is read from its stretch, since the next one is apart from it
      obtain ⟨hk, hrest⟩ := h.tail hts
      obtain ⟨⟨w, hw, hfits⟩, -⟩ := h.tile
      have hoff : t.offset = String.utf8Len a := h.first t rfl
      rw [hoff] at hw
      obtain ⟨b', rfl, hstop⟩ := hw.exists_append hs
      rw [hstop, ← String.utf8Len_append] at hrest
      have hrest' := ih (by simpa using hs) hrest
      rw [String.utf8Len_append, ← hoff] at hrest'
      rw [← hoff, Cursor.tokens_of_fits hk hfits, hrest']
      intro u hu
      rw [← hrest'] at hu
      exact (List.isChain_cons.1 h.separate).1 u hu

/-! ### Tokens in their text -/

lemma Token.Kind.Fits.ne_empty {kind : Kind} (h : kind.Fits v) (hk : kind ≠ .eof) : v ≠ "" := by
  cases kind with
  | eof => exact absurd rfl hk
  | whitespace => exact h.1
  | text => exact h.1.1
  | number => exact h.1.1
  | leftParen => exact ne_of_eq_of_ne h (by decide)
  | rightParen => exact ne_of_eq_of_ne h (by decide)
  | operator op => exact ne_of_eq_of_ne h (by cases op <;> decide)

/-- The kind of a token can be told from what it covers. -/
lemma Token.Kind.Fits.unique {k k' : Kind} (h : k.Fits v) (h' : k'.Fits v)
    (hk : k ≠ .eof) (hk' : k' ≠ .eof) : k = k' := by
  have htokens {k : Kind} (h : k.Fits v) (hk : k ≠ .eof) : ∃ l : String,
      Cursor.tokens ⟨v.toList, 0⟩ = ⟨k, l, 0⟩ :: Cursor.tokens ⟨[], String.utf8Len v.toList⟩ := by
    have hfits : (⟨k, if k = .whitespace then "" else v, 0⟩ : Token).Fits v := ⟨rfl, h⟩
    refine ⟨if k = .whitespace then "" else v, ?_⟩
    have := Cursor.tokens_of_fits (b := []) hk hfits (by simp [Separate, IsWord])
    simpa using this
  obtain ⟨l, hl⟩ := htokens h hk
  obtain ⟨l', hl'⟩ := htokens h' hk'
  rw [hl] at hl'
  exact (Token.mk.inj (List.cons.inj hl').1).1

lemma Token.Tile.of_mem (h : Token.Tile s ts) (ht : t ∈ ts) :
    ∃ n w, IsStretch s t.offset n w ∧ t.Fits w := by
  induction ts with
  | nil => cases ht
  | cons u ts ih =>
    obtain ⟨⟨w, hw, hfits⟩, hrest⟩ := h
    rcases List.mem_cons.1 ht with rfl | ht
    · exact ⟨_, w, hw, hfits⟩
    · exact ih hrest ht

namespace Token

/-- Where its span is, a visible token has its literal. -/
theorem isStretch_of_mem_visible (ht : t ∈ visible s) :
    IsStretch s t.offset (t.offset + t.literal.utf8ByteSize) t.literal ∧ t.kind.Fits t.literal := by
  obtain ⟨hmem, hk⟩ := List.mem_filter.1 ht
  rw [tokens_eq] at hmem
  have htile : Tile s (Cursor.ofText s).tokens := Cursor.tile_tokens (a := []) rfl
  obtain ⟨n, w, hw, hl, hfits⟩ := htile.of_mem hmem
  rw [if_neg (by simpa using hk)] at hl
  rw [hl, ← hw.stop_eq]
  exact ⟨hw, hfits⟩

/-- Of the visible tokens the end token alone has no literal, and it alone stands at the end. -/
theorem literal_eq_empty_iff (ht : t ∈ visible s) :
    t.literal = "" ↔ t.offset = s.utf8ByteSize := by
  by_cases hk : t.kind = .eof
  · rcases mem_visible_iff.1 ht with hmem | rfl
    · simp [Cursor.lexemes, hk] at hmem
    · simp
  · obtain ⟨hstretch, hfits⟩ := isStretch_of_mem_visible ht
    have hne := hfits.ne_empty hk
    have hpos : 0 < t.literal.utf8ByteSize := by
      rwa [Nat.pos_iff_ne_zero, ne_eq, String.utf8ByteSize_eq_zero_iff]
    have hle := hstretch.stop_le
    constructor
    · intro h
      exact absurd h hne
    · intro h
      omega

end Token

/-! ### Elements of a stream -/

/-- The answer when an element is asked for after `n` others. -/
def Token.Stream.element? (s : Stream) : Nat → Option Token
  | 0 => s.next?.1
  | n + 1 => s.next?.2.element? n

lemma Token.Stream.next?_cases (s : Stream) :
    s.finished = true ∧ s.next? = (none, s) ∨ ∃ t s', s.next? = (some t, s') := by
  cases hs : s.finished with
  | true => exact .inl ⟨rfl, by simp [next?, hs]⟩
  | false => exact .inr ⟨s.cursor.nextToken.1, _, by simp only [next?, hs]; rfl⟩

lemma Token.Stream.element?_eq (s : Stream) (n : Nat) : s.element? n = s.drain.1[n]? := by
  induction n generalizing s with
  | zero =>
    rw [element?]
    rcases s.next?_cases with ⟨hfinished, hs⟩ | ⟨t, s', hs⟩
    · rw [hs, drain_of_finished hfinished, List.getElem?_nil]
    · rw [hs, drain_of_next? hs, List.getElem?_cons_zero]
  | succ n ih =>
    rw [element?, ih]
    rcases s.next?_cases with ⟨hfinished, hs⟩ | ⟨t, s', hs⟩
    · rw [hs, drain_of_finished hfinished, List.getElem?_nil, List.getElem?_nil]
    · rw [hs, drain_of_next? hs, List.getElem?_cons_succ]

lemma isPartition_iff : Token.IsPartition s 0 ts ↔ ts = Token.tokens s := by
  have hs : s.toList = [] ++ s.toList := rfl
  rw [Token.tokens_eq, Cursor.ofText]
  constructor
  · intro h
    exact eq_tokens_of_isPartition hs h
  · rintro rfl
    exact Cursor.isPartition_tokens hs

/-- A stream hands out finitely many elements, and these are the one list of tokens that cuts up
the text: without gap or overlap, in the longest possible runs, with the end token behind them. -/
theorem elements_eq_iff_isPartition (s : String) :
    (∃ ts : List Token, ∀ n, (Token.Stream.ofText s).element? n = ts[n]?) ∧
    ∀ ts : List Token, (∀ n, (Token.Stream.ofText s).element? n = ts[n]?) ↔
      Token.IsPartition s 0 ts := by
  constructor
  · exact ⟨Token.tokens s, (Token.Stream.ofText s).element?_eq⟩
  · intro ts
    simp only [isPartition_iff, Token.Stream.element?_eq]
    constructor
    · intro h
      exact (List.ext_getElem? h).symm
    · rintro rfl n
      rfl

end Calculator
