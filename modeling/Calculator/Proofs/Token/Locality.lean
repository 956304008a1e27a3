import Calculator.Proofs.Token.Lexeme

/-!
# Scanning is local

Where no run goes on across a seam, the tokens of a text are those of its two parts, the second
ones moved along. Conversely a token starts at a seam only if no run goes on there. The offsets of
tokens increase, so that a token is found by its offset.
-/

namespace Calculator

variable {c : Char} {cs a b : List Char} {n : Nat}

/-- No run of blanks and no word goes on from one text into the next. -/
def Apart (a b : List Char) : Prop :=
  ¬ Joined isBlank a b ∧ ¬ Joined isWordChar a b

lemma Apart.of_suffix {a' : List Char} (ha : a' <:+ a) (h : Apart a b) : Apart a' b := by
  constructor
  · intro hj
    exact h.1 (hj.of_suffix ha)
  · intro hj
    exact h.2 (hj.of_suffix ha)

lemma Apart.append (hne : a ≠ []) (h : Apart a b) (w : List Char) : Apart (w ++ a) b := by
  rwa [Apart, Joined, Joined, endsIn_append_iff hne, endsIn_append_iff hne]

/-- A token that is a word: a number, or text. -/
def Token.IsWord (t : Token) : Prop :=
  t.kind = .number ∨ t.kind = .text

lemma Token.isWord_of_kind {t : Token} (h : t.kind = .ofWord cs) : t.IsWord := by
  rw [Token.IsWord, h]
  unfold Token.Kind.ofWord
  split
  · exact .inl rfl
  · exact .inr rfl

namespace Cursor

/-! ### Offsets -/

lemma le_offset_of_mem_tokens {t : Token} (ht : t ∈ tokens ⟨cs, n⟩) : n ≤ t.offset := by
  induction cs using scan_ind generalizing n with
  | nil => simp_all
  | symbol c cs kind h ih =>
    rw [tokens_symbol h, List.mem_cons] at ht
    rcases ht with rfl | ht
    · exact le_rfl
    · exact (Nat.le_add_right n _).trans (ih ht)
  | blank c cs h _ ih =>
    rw [tokens_blank h, List.mem_cons] at ht
    rcases ht with rfl | ht
    · exact le_rfl
    · exact (Nat.le_add_right n _).trans (ih ht)
  | word c cs h ih =>
    rw [tokens_word h, List.mem_cons] at ht
    rcases ht with rfl | ht
    · exact le_rfl
    · exact (Nat.le_add_right n _).trans (ih ht)

theorem tokens_pairwise (cs : List Char) (n : Nat) :
    (tokens ⟨cs, n⟩).Pairwise fun t u => t.offset < u.offset := by
  have hlt (c : Char) (cs : List Char) {ds : List Char} {m : Nat} {u : Token}
      (hu : u ∈ tokens ⟨ds, m + String.utf8Len (c :: cs)⟩) : m < u.offset :=
    (lt_add_utf8Len_cons m c cs).trans_le (le_offset_of_mem_tokens hu)
  induction cs using scan_ind generalizing n with
  | nil => simp
  | symbol c cs kind h ih =>
    rw [tokens_symbol h, List.pairwise_cons]
    constructor
    · intro u hu
      exact hlt c [] (by simpa using hu)
    · exact ih _
  | blank c cs h _ ih =>
    rw [tokens_blank h, List.pairwise_cons]
    constructor
    · intro u hu
      exact hlt c _ hu
    · exact ih _
  | word c cs h ih =>
    rw [tokens_word h, List.pairwise_cons]
    constructor
    · intro u hu
      exact hlt c _ hu
    · exact ih _

/-- Reading a token moves the cursor over a stretch of the text, which is empty at the end only. -/
lemma exists_rest_eq (k : Cursor) :
    ∃ w, k.rest = w ++ k.nextToken.2.rest ∧ k.nextToken.2.offset = k.offset + String.utf8Len w ∧
      (w = [] → k.rest = []) := by
  have hrun (p : Char → Bool) {c : Char} {k' : Cursor} (hread : k.read? = some (c, k')) :
      ∃ w, k.rest = w ++ (k'.readWhile p).2.rest ∧
        (k'.readWhile p).2.offset = k.offset + String.utf8Len w ∧ (w = [] → k.rest = []) := by
    rw [read?_eq_some_iff] at hread
    refine ⟨c :: k'.rest.takeWhile p, ?_, ?_, ?_⟩
    · simp [readWhile_eq, hread.1]
    · rw [readWhile_eq, add_utf8Len_cons, hread.2]
    · simp
  fun_cases nextToken k with
  | case1 h => exact ⟨[], rfl, rfl, fun _ => read?_eq_none_iff.1 h⟩
  | case2 c k' h kind hk =>
    rw [read?_eq_some_iff] at h
    exact ⟨[c], h.1, by simpa using h.2, by simp⟩
  | case3 c k' h hk hb => exact hrun isBlank h
  | case4 c k' h hk hb run k'' hr => simpa only [hr] using hrun isWordChar h

/-! ### Tokens of composed texts -/

lemma exists_tokens_eq_cons (k : Cursor) : ∃ ts, k.tokens = k.nextToken.1 :: ts := by
  by_cases h : k.nextToken.1.kind = .eof
  · exact ⟨[], tokens_of_eof h⟩
  · exact ⟨_, tokens_of_not_eof h⟩

lemma tokens_ne_nil (k : Cursor) : k.tokens ≠ [] := by
  obtain ⟨ts, hts⟩ := k.exists_tokens_eq_cons
  simp [hts]

lemma dropLast_cons_tokens (t : Token) (k : Cursor) :
    (t :: k.tokens).dropLast = t :: k.tokens.dropLast :=
  List.dropLast_cons_of_ne_nil k.tokens_ne_nil

/-- The tokens of two texts behind one another, no run of the first going on into the second. -/
theorem tokens_append (h : Apart a b) (n : Nat) :
    tokens ⟨a ++ b, n⟩ = (tokens ⟨a, n⟩).dropLast ++ tokens ⟨b, n + String.utf8Len a⟩ := by
  have hsuffix (p : Char → Bool) (c : Char) (cs : List Char) : cs.dropWhile p <:+ c :: cs :=
    (List.dropWhile_suffix p).trans (List.suffix_cons c cs)
  induction a using scan_ind generalizing n with
  | nil => simp
  | symbol c cs kind hc ih =>
    rw [List.cons_append, tokens_symbol hc, tokens_symbol hc, dropLast_cons_tokens,
      ih (h.of_suffix (List.suffix_cons c cs)), List.cons_append, add_utf8Len_cons]
  | blank c cs hc _ ih =>
    obtain ⟨htake, hdrop⟩ := run_append hc h.1
    rw [List.cons_append, tokens_blank hc, tokens_blank hc, htake, hdrop, dropLast_cons_tokens,
      ih (h.of_suffix (hsuffix isBlank c cs)), List.cons_append, Nat.add_assoc, utf8Len_run]
  | word c cs hc ih =>
    obtain ⟨htake, hdrop⟩ := run_append hc h.2
    rw [List.cons_append, tokens_word hc, tokens_word hc, htake, hdrop, dropLast_cons_tokens,
      ih (h.of_suffix (hsuffix isWordChar c cs)), List.cons_append, Nat.add_assoc, utf8Len_run]

/-! ### Seams between tokens -/

/-- A token starts at this seam of a text. -/
def StartsAt (a b : List Char) (n : Nat) : Prop :=
  ∃ t ∈ tokens ⟨a ++ b, n⟩, t.offset = n + String.utf8Len a

/-- One run at the start of a text, for two classes `p` and `q` that exclude one another. -/
lemma not_joined_of_run {p q : Char → Bool} {t : Token} (hc : p c = true)
    (hpq : ∀ d, p d = true → q d = false)
    (hrun : tokens ⟨c :: (cs ++ b), n⟩ = t ::
      tokens ⟨(cs ++ b).dropWhile p, n + String.utf8Len (c :: (cs ++ b).takeWhile p)⟩)
    (ht : t.offset = n)
    (ih : ∀ m, StartsAt (cs.dropWhile p) b m →
      ¬ Joined p (cs.dropWhile p) b ∧ ¬ Joined q (cs.dropWhile p) b)
    (h : StartsAt (c :: cs) b n) : ¬ Joined p (c :: cs) b ∧ ¬ Joined q (c :: cs) b := by
  obtain ⟨u, hu, hoff⟩ := h
  rw [List.cons_append, hrun, List.mem_cons] at hu
  have hpos := lt_add_utf8Len_cons n c cs
  have hu : u ∈ tokens ⟨(cs ++ b).dropWhile p,
      n + String.utf8Len (c :: (cs ++ b).takeWhile p)⟩ := by
    rcases hu with rfl | hu
    · omega
    · exact hu
  by_cases hall : cs.dropWhile p = []
  · -- the run reaches the seam, and stops there
    have hrest : ∀ d ∈ c :: cs, p d = true := by
      simpa [hc] using List.dropWhile_eq_nil_iff.1 hall
    constructor
    · rintro ⟨-, hb⟩
      obtain ⟨d, ds, rfl, hpd⟩ := hb.exists_cons
      have hle := le_offset_of_mem_tokens hu
      have htake : (cs ++ d :: ds).takeWhile p = cs ++ d :: ds.takeWhile p := by
        rw [List.takeWhile_append_of_pos (by simpa [hc] using hrest),
          List.takeWhile_cons_of_pos hpd]
      have hd := d.utf8Size_pos
      rw [htake] at hle
      simp only [String.utf8Len_cons, String.utf8Len_append] at hle hoff
      omega
    · intro hj
      apply not_endsIn_of_forall _ hj.1
      intro d hd
      exact hpq d (hrest d hd)
  · -- the run ends before the seam
    have hsplit : c :: cs = (c :: cs.takeWhile p) ++ cs.dropWhile p := by simp
    rw [hsplit, Joined, Joined, endsIn_append_iff hall, endsIn_append_iff hall]
    obtain ⟨htake, hdrop⟩ := run_append_of_ne_nil (b := b) hall
    rw [htake, hdrop] at hu
    exact ih _ ⟨u, hu, by rw [hoff, hsplit, String.utf8Len_append, Nat.add_assoc]⟩

/-- A token starts at a seam only if no run goes on across it. -/
theorem apart_of_startsAt (h : StartsAt a b n) : Apart a b := by
  induction a using scan_ind generalizing n with
  | nil =>
    have hnil {p : Char → Bool} : ¬ Joined p [] b := by
      intro hj
      exact not_endsIn_of_forall (by simp) hj.1
    exact ⟨hnil, hnil⟩
  | symbol c cs kind hc ih =>
    obtain ⟨u, hu, hoff⟩ := h
    rw [List.cons_append, tokens_symbol hc, List.mem_cons] at hu
    rcases hu with rfl | hu
    · have := lt_add_utf8Len_cons n c cs
      simp only at hoff
      omega
    · by_cases hcs : cs = []
      · -- a symbol at the seam belongs to no run
        subst hcs
        have hlast {p : Char → Bool} (hp : p c = false) : ¬ Joined p [c] b := by
          intro hj
          exact not_endsIn_of_forall (by simpa using hp) hj.1
        exact ⟨hlast (not_isBlank_of_ofSymbol? hc), hlast (not_isWordChar_of_ofSymbol? hc)⟩
      · refine (ih ⟨u, hu, ?_⟩).append hcs [c]
        rw [hoff, add_utf8Len_cons]
  | blank c cs hc _ ih =>
    exact not_joined_of_run hc (fun d hd => not_isWordChar_of_isBlank hd) (tokens_blank hc) rfl
      (fun m hm => ih hm) h
  | word c cs hc ih =>
    exact (not_joined_of_run hc (fun d hd => (isWordChar_eq_true_iff.1 hd).1) (tokens_word hc) rfl
      (fun m hm => (ih hm).symm) h).symm

lemma takeWhile_offset_lt {us vs : List Token} {t : Token}
    (h : (us ++ t :: vs).Pairwise fun u v => u.offset < v.offset) :
    (us ++ t :: vs).takeWhile (fun u => u.offset < t.offset) = us := by
  rw [List.pairwise_append] at h
  rw [List.takeWhile_append_of_pos
    fun u hu => decide_eq_true (h.2.2 u hu t List.mem_cons_self)]
  simp

/-- A list of tokens with one at a seam splits there into the tokens of the two parts. -/
theorem tokens_split {us vs : List Token} {t : Token} (h : tokens ⟨a ++ b, n⟩ = us ++ t :: vs)
    (ht : t.offset = n + String.utf8Len a) :
    us = (tokens ⟨a, n⟩).dropLast ∧ t :: vs = tokens ⟨b, n + String.utf8Len a⟩ := by
  have hmem : t ∈ tokens ⟨a ++ b, n⟩ := by
    rw [h]
    exact List.mem_append_right us List.mem_cons_self
  have happ := tokens_append (apart_of_startsAt ⟨t, hmem, ht⟩) n
  obtain ⟨ts, hts⟩ := exists_tokens_eq_cons ⟨b, n + String.utf8Len a⟩
  have hpair := tokens_pairwise (a ++ b) n
  have hright : (tokens ⟨a ++ b, n⟩).takeWhile (fun u => u.offset < n + String.utf8Len a) =
      (tokens ⟨a, n⟩).dropLast := by
    rw [happ, hts] at hpair ⊢
    simpa using takeWhile_offset_lt hpair
  have hus : us = (tokens ⟨a, n⟩).dropLast := by
    rw [← hright, h, ← ht]
    rw [h] at hpair
    exact (takeWhile_offset_lt hpair).symm
  refine ⟨hus, ?_⟩
  rw [h, hus] at happ
  exact List.append_cancel_left happ

/-! ### Words at a seam -/

lemma isWord_head_tokens (h : StartsIn isWordChar cs) (n : Nat) :
    ∃ t ∈ (tokens ⟨cs, n⟩).head?, t.IsWord := by
  obtain ⟨c, ds, rfl, hc⟩ := h.exists_cons
  rw [tokens_word hc]
  exact ⟨_, rfl, Token.isWord_of_kind rfl⟩

lemma isWord_getLast_tokens (h : EndsIn isWordChar cs) (n : Nat) :
    ∃ t ∈ (tokens ⟨cs, n⟩).dropLast.getLast?, t.IsWord := by
  have hstep {t : Token} {ts : List Token} (h : ∃ u ∈ ts.getLast?, u.IsWord) :
      ∃ u ∈ (t :: ts).getLast?, u.IsWord := by
    obtain ⟨u, hu, hword⟩ := h
    rw [List.getLast?_cons, Option.mem_def.1 hu]
    exact ⟨u, rfl, hword⟩
  induction cs using scan_ind generalizing n with
  | nil => exact absurd h (not_endsIn_of_forall (by simp))
  | symbol c ds kind hc ih =>
    rw [tokens_symbol hc, dropLast_cons_tokens]
    have hds : EndsIn isWordChar ds :=
      EndsIn.of_append (w := [c]) (by simpa using not_isWordChar_of_ofSymbol? hc) h
    exact hstep (ih hds _)
  | blank c ds hc _ ih =>
    rw [tokens_blank hc, dropLast_cons_tokens]
    have hds : EndsIn isWordChar (ds.dropWhile isBlank) := by
      refine EndsIn.of_append (w := c :: ds.takeWhile isBlank) ?_ (by simpa using h)
      intro d hd
      rcases List.mem_cons.1 hd with rfl | hd
      · exact not_isWordChar_of_isBlank hc
      · exact not_isWordChar_of_isBlank (List.mem_takeWhile_imp hd)
    exact hstep (ih hds _)
  | word c ds hc ih =>
    rw [tokens_word hc, dropLast_cons_tokens]
    by_cases hds : ds.dropWhile isWordChar = []
    · -- the word is the last one, and has the end token behind it
      rw [hds, tokens_nil]
      exact ⟨_, rfl, Token.isWord_of_kind rfl⟩
    · have hsplit : c :: ds = (c :: ds.takeWhile isWordChar) ++ ds.dropWhile isWordChar := by simp
      rw [hsplit, endsIn_append_iff hds] at h
      exact hstep (ih h _)

end Cursor

end Calculator
