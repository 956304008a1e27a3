import Calculator.Proofs.Formula.Writing
import Calculator.Proofs.Token.Numeral

/-!
# Expressions written from their tokens

The tokens of an expression can be written again with other white space between them, or with none
at all: they are the pieces of an expression, no value follows directly on another, and so they are
found again as the tokens of what was written.
-/

namespace Calculator

open Parsing

variable {s a b w : String} {t : Token} {ts us : List Token} {ps : List Piece} {e : Expr}

/-! ### Tokens as pieces -/

/-- A numeral that is read has a digit. -/
lemma exists_digit (h : IsWordText s ∧ IsNumeralText s) {x : Number}
    (hx : Number.ofText? s = some x) : ∃ c ∈ s.toList, c.isDigit = true := by
  obtain ⟨hword, hnumeral⟩ := h
  have hplain : isPlainNumeral s.toList = true := by
    rwa [← String.ofList_toList (s := s), isNumeralText_iff] at hnumeral
  have hne : s.toList ≠ [] := by simpa using hword.1
  have hpoint : s.toList ≠ ['.'] := by
    rw [ne_eq, ← Numeral.read?_eq_none_iff_of_plain hplain hne, ← Number.ofText?, hx]
    exact Option.some_ne_none x
  rcases isPlainNumeral_iff.1 hplain with hdigits | ⟨us, vs, hsplit, hus, hvs⟩
  · obtain ⟨c, cs, hcs⟩ := List.exists_cons_of_ne_nil hne
    have hc : c ∈ s.toList := by
      rw [hcs]
      exact List.mem_cons_self
    exact ⟨c, hc, hdigits c hc⟩
  · have hsides : us ++ vs ≠ [] := by
      intro hnil
      obtain ⟨rfl, rfl⟩ := List.append_eq_nil_iff.1 hnil
      exact hpoint hsplit
    obtain ⟨c, hc⟩ := List.exists_mem_of_ne_nil _ hsides
    refine ⟨c, ?_, ?_⟩
    · rw [hsplit, List.mem_append, List.mem_cons]
      exact (List.mem_append.1 hc).imp_right Or.inr
    · exact (List.mem_append.1 hc).elim (hus c) (hvs c)

/-- The tokens of an expression as pieces: no value follows directly on another, and the first of
the pieces starts one. -/
structure PiecesOf (ts : List Token) (ps : List Piece) : Prop where
  content : Token.content ts = ps.map fun p => (p.kind, p.text)
  isChain : ps.IsChain Piece.Meets
  starts : ∃ p ∈ ps.head?, p.starts = true

namespace PiecesOf

lemma literal (l : Literal) (ht : t.kind = .number) (hl : t.literal = l.text) :
    PiecesOf [t] [.literal l] where
  content := by
    rw [Token.content, List.map_singleton, ht, hl]
    rfl
  isChain := List.isChain_singleton _
  starts := ⟨_, rfl, rfl⟩

lemma enclose {l r : Token} (h : PiecesOf ts ps) (hl : (l.kind, l.literal) = (.leftParen, "("))
    (hr : (r.kind, r.literal) = (.rightParen, ")")) :
    PiecesOf (l :: (ts ++ [r])) (Piece.enclose true ps) where
  content := by
    rw [Token.content, List.map_cons, List.map_append, List.map_singleton, hl, hr,
      ← Token.content, h.content, Piece.enclose, if_pos rfl, List.map_cons, List.map_append]
    rfl
  isChain := Piece.isChain_enclose true h.isChain
  starts := ⟨_, rfl, rfl⟩

lemma binary {op : Operator} {qs : List Piece} (hl : PiecesOf ts ps) (hr : PiecesOf us qs)
    (ht : (t.kind, t.literal) = (.operator op, op.text)) :
    PiecesOf (ts ++ t :: us) (ps ++ .operator op :: qs) where
  content := by
    rw [Token.content, List.map_append, List.map_cons, ht, ← Token.content, ← Token.content,
      hl.content, hr.content, List.map_append]
    rfl
  isChain := by
    refine List.isChain_append.2 ⟨hl.isChain, List.isChain_cons.2 ⟨?_, hr.isChain⟩, ?_⟩
    · intro q _
      exact Piece.meets_of_not_ends rfl q
    · rintro p _ q ⟨⟩
      exact Piece.meets_of_not_starts p rfl
  starts := by
    obtain ⟨p, hp, hstarts⟩ := hl.starts
    exact ⟨p, List.mem_head?_append_of_mem_head? hp, hstarts⟩

/-- The first tokens of an expression are pieces as well. -/
lemma of_append (h : PiecesOf (ts ++ us) ps) (hne : ts ≠ []) : ∃ qs, PiecesOf ts qs := by
  have hcontent := h.content
  rw [Token.content, List.map_append] at hcontent
  obtain ⟨qs, rs, rfl, hqs, -⟩ := List.map_eq_append_iff.1 hcontent.symm
  refine ⟨qs, hqs.symm, (List.isChain_append.1 h.isChain).1, ?_⟩
  obtain ⟨p, hp, hstarts⟩ := h.starts
  have hqsne : qs ≠ [] := by
    rintro rfl
    exact hne (List.map_eq_nil_iff.1 hqs.symm)
  rw [List.head?_append_of_ne_nil qs hqsne] at hp
  exact ⟨p, hp, hstarts⟩

end PiecesOf

theorem Parsing.Nests.exists_pieces (h : Nests ts e)
    (hts : ∀ t ∈ ts, t.kind.Fits t.literal) : ∃ ps, PiecesOf ts ps := by
  induction h with
  | @number t x ht hx =>
    have hfits : t.kind.Fits t.literal := hts t (List.mem_singleton_self t)
    rw [ht] at hfits
    exact ⟨_, .literal ⟨t.literal, hfits.2, exists_digit hfits hx⟩ ht rfl⟩
  | @group l r ts e hl h hr ih =>
    obtain ⟨hlfits, htail⟩ := List.forall_mem_cons.1 hts
    obtain ⟨hmid, hrfits⟩ := List.forall_mem_append.1 htail
    obtain ⟨ps, hps⟩ := ih hmid
    have hrfits := hrfits r (List.mem_singleton_self r)
    rw [hl] at hlfits
    rw [hr] at hrfits
    exact ⟨_, hps.enclose (Prod.ext hl hlfits) (Prod.ext hr hrfits)⟩
  | binary hl ht hr ihl ihr =>
    obtain ⟨hleft, htail⟩ := List.forall_mem_append.1 hts
    obtain ⟨hfits, hright⟩ := List.forall_mem_cons.1 htail
    obtain ⟨ps, hps⟩ := ihl hleft
    obtain ⟨qs, hqs⟩ := ihr hright
    rw [ht] at hfits
    exact ⟨_, hps.binary hqs (Prod.ext ht hfits)⟩

/-! ### Writing tokens -/

/-- The tokens one after the other, with blanks before, between and behind them. -/
inductive Token.Written : List Token → String → Prop where
  | nil {w : String} (hw : IsWhiteSpace w) : Written [] w
  | cons {t : Token} {ts : List Token} {w s : String} (hw : IsWhiteSpace w) (h : Written ts s) :
      Written (t :: ts) (w ++ t.literal ++ s)

lemma isWhiteSpace_space : IsWhiteSpace " " := by
  intro c hc
  rw [List.mem_singleton.1 hc]
  rfl

lemma IsWhiteSpace.append (ha : IsWhiteSpace a) (hb : IsWhiteSpace b) : IsWhiteSpace (a ++ b) := by
  intro c hc
  rw [String.toList_append] at hc
  exact (List.mem_append.1 hc).elim (ha c) (hb c)

namespace Token

lemma Written.prepend (hw : IsWhiteSpace w) (h : Written ts s) : Written ts (w ++ s) := by
  cases h with
  | nil hs => exact .nil (hw.append hs)
  | @cons t ts v s hv h =>
    rw [← String.append_assoc, ← String.append_assoc]
    exact .cons (hw.append hv) h

/-- Texts behind one another write the tokens of both. -/
lemma Written.append (h : Written ts a) (h' : Written us b) : Written (ts ++ us) (a ++ b) := by
  induction h with
  | nil hw => exact h'.prepend hw
  | @cons t ts w s hw h ih =>
    rw [String.append_assoc]
    exact .cons hw ih

/-- Texts joined by spaces write the tokens of them all. -/
lemma written_intercalate {cuts : List (List Token)} {args : List String}
    (h : List.Forall₂ Written cuts args) : Written cuts.flatten (" ".intercalate args) := by
  induction h with
  | nil => exact .nil isWhiteSpace_empty
  | @cons ts arg cuts args harg hargs ih =>
    rw [List.flatten_cons]
    cases hargs with
    | nil =>
      rw [String.intercalate_singleton, List.flatten_nil, List.append_nil]
      exact harg
    | cons _ _ =>
      rw [String.intercalate_cons_of_ne_nil (List.cons_ne_nil _ _), String.append_assoc]
      exact harg.append (ih.prepend isWhiteSpace_space)

lemma Written.spaced (h : Written ts s)
    (hps : content ts = ps.map fun p => (p.kind, p.text)) : Spaced ps s := by
  induction h generalizing ps with
  | nil hw =>
    obtain rfl : ps = [] := List.map_eq_nil_iff.1 hps.symm
    exact .nil hw
  | @cons t ts w s hw h ih =>
    obtain ⟨p, qs, rfl, hp, hqs⟩ := List.map_eq_cons_iff.1 hps.symm
    rw [← (Prod.mk.inj hp).2]
    exact .cons hw (ih hqs.symm)

/-- What is written with the tokens of an expression has the same tokens again. -/
theorem Written.content_eq (h : Written ts s) (hps : PiecesOf ts ps) :
    Cursor.content s.toList = content ts := by
  rw [hps.content]
  exact (h.spaced hps.content).content_eq hps.isChain

end Token

end Calculator
