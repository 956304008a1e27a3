import Calculator.Parsing.Reader
import Calculator.Proofs.Token.Lexeme

/-!
# What a reader supplies

`Reads r s ts` says that the reader `r` of the text `s` is about to supply the tokens `ts`, white
space left out. Reading takes the first of them away, putting a token back makes it the first one
again, and the end token never goes away.
-/

namespace Calculator.Parsing.Reader

variable {r : Reader} {s : String} {t : Token} {ts : List Token}

/-! ### The tokens ahead -/

/-- All tokens that are still to be read, those that were put back first. -/
def ahead (r : Reader) : List Token :=
  r.pending ++ r.cursor.tokens

lemma read_source (r : Reader) : r.read.2.source = r.source := by
  fun_cases read r <;> rfl

lemma read_pending_subset (r : Reader) : r.read.2.pending ⊆ r.pending := by
  fun_cases read r with
  | case1 t ts h => simp [h]
  | case2 h t k hk => simp

lemma ahead_of_read (h : r.read.1.kind ≠ .eof) : r.ahead = r.read.1 :: r.read.2.ahead := by
  rcases r with ⟨s, k, _ | ⟨t, ts⟩, trace⟩
  · exact Cursor.tokens_of_not_eof h
  · rfl

lemma ahead_of_read_eof (hp : ∀ t ∈ r.pending, t.kind ≠ .eof) (h : r.read.1.kind = .eof) :
    r.ahead = [r.read.1] ∧ r.read.2.ahead = [r.read.1] := by
  rcases r with ⟨s, k, _ | ⟨t, ts⟩, trace⟩
  · have hk : k.nextToken = (⟨.eof, "", k.offset⟩, k) :=
      Cursor.nextToken_of_rest_eq_nil (Cursor.kind_nextToken_eq_eof_iff.1 h)
    simp only [ahead, read, hk, List.nil_append]
    rw [Cursor.tokens_of_eof h, hk]
    exact ⟨rfl, rfl⟩
  · exact absurd h (hp t List.mem_cons_self)

/-! ### The tokens to be supplied -/

/-- The reader supplies these tokens of a text, leaving out white space. -/
structure Reads (r : Reader) (s : String) (ts : List Token) : Prop where
  source_eq : r.source = s
  pending_ne : ∀ t ∈ r.pending, t.kind ≠ .eof
  ahead_eq : r.ahead.filter (fun t => t.kind ≠ .whitespace) = ts

lemma reads_ofText (s : String) : (ofText s).Reads s (Token.visible s) where
  source_eq := rfl
  pending_ne := by simp [ofText]
  ahead_eq := by rw [Token.visible, Token.tokens_eq]; rfl

lemma Reads.skip (h : r.Reads s ts) (hw : r.read.1.kind = .whitespace) : r.read.2.Reads s ts where
  source_eq := r.read_source.trans h.source_eq
  pending_ne t ht := h.pending_ne t (r.read_pending_subset ht)
  ahead_eq := by
    have hne : r.read.1.kind ≠ .eof := by simp [hw]
    rw [← h.ahead_eq, ahead_of_read hne, List.filter_cons_of_neg (by simp [hw])]

/-- The next token is the first one that is supplied. Those behind it are supplied afterwards, and
the end token itself once more. -/
theorem Reads.next {r' : Reader} (h : r.Reads s ts) (hn : r.next = (t, r')) :
    ∃ us, ts = t :: us ∧ r'.source = s ∧ (t.kind ≠ .eof → r'.Reads s us) ∧
      (t.kind = .eof → r'.Reads s ts) := by
  fun_induction Reader.next r with
  | case1 r hw hlt ih => exact ih (h.skip hw) hn
  | case2 r hw =>
    have hread {us : List Token}
        (hus : r.read.2.ahead.filter (fun t => t.kind ≠ .whitespace) = us) : r.read.2.Reads s us :=
      ⟨r.read_source.trans h.source_eq, fun t ht => h.pending_ne t (r.read_pending_subset ht), hus⟩
    obtain ⟨rfl, rfl⟩ : r.read.1 = t ∧ r.read.2 = r' := by simp [hn]
    have hfilter (us : List Token) : (r.read.1 :: us).filter (fun t => t.kind ≠ .whitespace) =
        r.read.1 :: us.filter (fun t => t.kind ≠ .whitespace) :=
      List.filter_cons_of_pos (by simpa using hw)
    have hsource : r.read.2.source = s := r.read_source.trans h.source_eq
    by_cases he : r.read.1.kind = .eof
    · -- the end token stays ahead of the reader for good
      obtain ⟨h₁, h₂⟩ := ahead_of_read_eof h.pending_ne he
      have hts : ts = [r.read.1] := by rw [← h.ahead_eq, h₁, hfilter, List.filter_nil]
      refine ⟨[], hts, hsource, ?_, ?_⟩
      · intro hne
        exact absurd he hne
      · intro _
        apply hread
        rw [h₂, hfilter, List.filter_nil, hts]
    · refine ⟨r.read.2.ahead.filter (fun t => t.kind ≠ .whitespace), ?_, hsource, ?_, ?_⟩
      · rw [← h.ahead_eq, ahead_of_read he, hfilter]
      · intro _
        exact hread rfl
      · intro he'
        exact absurd he' he

lemma Reads.putBack (h : r.Reads s ts) (he : t.kind ≠ .eof) (hw : t.kind ≠ .whitespace) :
    (r.putBack t).Reads s (t :: ts) where
  source_eq := h.source_eq
  pending_ne := by
    intro u hu
    rcases List.mem_cons.1 hu with rfl | hu
    · exact he
    · exact h.pending_ne u hu
  ahead_eq := by
    rw [← h.ahead_eq, ← List.filter_cons_of_pos (by simpa using hw)]
    rfl

lemma Reads.note (h : r.Reads s ts) (op : Operator) (n : Nat) : (r.note op n).Reads s ts :=
  ⟨h.source_eq, h.pending_ne, h.ahead_eq⟩

end Calculator.Parsing.Reader
