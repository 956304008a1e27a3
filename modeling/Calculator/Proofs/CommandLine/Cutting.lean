import Calculator.Proofs.CommandLine.Agreement
import Calculator.Proofs.Formula.Tokens

/-!
# Cutting an expression into arguments

An expression may be given as one argument or cut into several, between any of its tokens. Its
arguments are joined again with spaces, which do not matter; and as no expression starts with a
dash, its first argument is no option, and then neither are the others.
-/

namespace Calculator

variable {R : Span → Span → Prop} {s s' : String} {e e' : Expr} {ts : List Token}
  {ps : List Piece}

lemma Expr.Alike.text_eq (h : e.Alike R e') : e.text = e'.text := by
  have hwrite : e.write = e'.write := by
    induction h with
    | number x => rfl
    | binary op hl hr hsp ihl ihr => rw [write_binary, write_binary, ihl, ihr]
  rw [text, text, hwrite]

/-- A text with the tokens that an expression starts with does not start with a dash. -/
lemma PiecesOf.head?_ne (h : PiecesOf ts ps)
    (hs : Cursor.content s.toList = Token.content ts) : s.toList.head? ≠ some '-' := by
  intro hdash
  obtain ⟨cs, hcs⟩ := List.head?_eq_some_iff.1 hdash
  obtain ⟨p, hp, hstarts⟩ := h.starts
  obtain ⟨qs, rfl⟩ := List.head?_eq_some_iff.1 hp
  rw [h.content, hcs, Cursor.content, Cursor.lexemes_symbol rfl, List.map_cons] at hs
  have hkind : Token.Kind.operator .sub = p.kind := (Prod.mk.inj (List.cons.inj hs).1).1
  cases p with
  | operator op => exact Bool.false_ne_true hstarts
  | literal l => cases hkind
  | leftParen => cases hkind
  | rightParen => cases hkind

/-- The tokens of a text that is read as an expression are pieces of one. -/
lemma exists_piecesOf_lexemes (h : (parse s).result = .ok e) :
    ∃ ps, PiecesOf (Cursor.ofText s).lexemes ps := by
  apply (Parsing.parse_eq_ok_iff.1 h).nests.exists_pieces
  intro t ht
  exact (Token.isStretch_of_mem_visible (Token.mem_visible_iff.2 (.inl ht))).2

/-- Arguments that are written with the tokens of an expression are it again once they are joined,
up to white space. -/
lemma sameVisible_intercalate {cuts : List (List Token)} {args : List String}
    (hargs : List.Forall₂ Token.Written cuts args) (h : PiecesOf cuts.flatten ps)
    (hs : Cursor.content s.toList = Token.content cuts.flatten) :
    SameVisible (" ".intercalate args) s := by
  rw [SameVisible, content_visible, content_visible, hs,
    (Token.written_intercalate hargs).content_eq h]

namespace CommandLine

variable {arg : String} {flags args rest operands : List String} {o : Options}

/-! ### Runs on texts that are read alike -/

lemma conclude_alike {x x' : Except Failure Number} {output : String} {log log' : List Log.Record}
    (h : OutcomeAlike R s s' x x') :
    (conclude output log x).exitCode = (conclude output log' x').exitCode ∧
      (conclude output log x).output = (conclude output log' x').output := by
  cases h with
  | ok x => exact ⟨rfl, rfl⟩
  | malformed fault h => exact ⟨rfl, rfl⟩
  | divisionByZero x h => exact ⟨rfl, rfl⟩

lemma front_eq (h : SameVisible s s') : front s = front s' := by
  have hparse := parse_alike_of_sameVisible h
  rw [front, front]
  generalize (parse s).result = x, (parse s').result = x' at hparse
  cases hparse with
  | ok he => exact congrArg line he.text_eq
  | error fault ht => rfl

/-- Runs on texts that differ in their white space only end alike, and write the same. -/
lemma evaluate_alike (h : SameVisible s s') (o : Options) :
    (evaluate o s).exitCode = (evaluate o s').exitCode ∧
      (o.tokens = false → (evaluate o s).output = (evaluate o s').output) := by
  have hcalculate : OutcomeAlike (Corresponding s s') s s' (calculate s) (calculate s') :=
    calculate_alike ((parse_alike_of_sameVisible h).mono fun e e' => Expr.Alike.evalAlike)
  cases htokens : o.tokens with
  | true =>
    simp only [evaluate, htokens, if_true]
    exact ⟨rfl, by simp⟩
  | false =>
    cases htree : o.tree with
    | true =>
      simp only [evaluate, htokens, htree, writeTree_eq, front_eq h, if_true, if_false,
        Bool.false_eq_true, forall_const]
      exact conclude_alike hcalculate
    | false =>
      simp only [evaluate, htokens, htree, writeValue, if_false, Bool.false_eq_true, forall_const]
      exact conclude_alike hcalculate

/-! ### Options in front of an expression -/

lemma ofText_of_head?_ne (h : arg.toList.head? ≠ some '-') : Argument.ofText arg = .operand := by
  fun_cases Argument.ofText arg with
  | case7 => rfl
  | _ => simp_all

lemma isFlag_of_head?_ne (h : arg.toList.head? ≠ some '-') : isFlag arg = false := by
  by_contra hflag
  obtain ⟨fs, hfs⟩ := ofText_eq_flags_iff.2 (isOption_of_isFlag (by simpa using hflag))
  rw [ofText_of_head?_ne h] at hfs
  cases hfs

/-- Options in front are passed over, or else they end the reading, whatever follows them. -/
lemma read_append (hflags : ∀ flag ∈ flags, IsOption flag) (o : Options) :
    (∃ o' : Options, (∀ flag ∈ flags, isFlag flag = true) ∧
      ∀ rest, o.read (flags ++ rest) = o'.read rest) ∨
    ∃ request, (∀ o' operands, request ≠ .calculate o' operands) ∧
      ∀ rest, o.read (flags ++ rest) = request := by
  induction flags generalizing o with
  | nil => exact .inl ⟨o, by simp, fun rest => rfl⟩
  | cons flag flags ih =>
    obtain ⟨hflag, hflags⟩ := List.forall_mem_cons.1 hflags
    obtain ⟨fs, hfs⟩ := ofText_eq_flags_iff.2 hflag
    cases hadd : o.addAll fs with
    | error request =>
      refine .inr ⟨request, ?_, fun rest => by simp [Options.read, hfs, hadd]⟩
      rintro o' operands rfl
      exact addAll_ne_calculate hadd
    | ok o₁ =>
      have hread (rest : List String) :
          o.read (flag :: flags ++ rest) = o₁.read (flags ++ rest) := by
        simp [Options.read, hfs, hadd]
      rcases ih hflags o₁ with ⟨o', hpassed, hrest⟩ | ⟨request, hne, hrest⟩
      · refine .inl ⟨o', ?_, fun rest => by rw [hread, hrest]⟩
        exact List.forall_mem_cons.2 ⟨isFlag_of_addAll hfs hadd, hpassed⟩
      · exact .inr ⟨request, hne, fun rest => by rw [hread, hrest]⟩

lemma read_of_head?_ne (h : arg.toList.head? ≠ some '-') (o : Options) (args : List String) :
    o.read (arg :: args) = .calculate o (arg :: args) := by
  rw [Options.read, ofText_of_head?_ne h]

lemma expression_append (hflags : ∀ flag ∈ flags, isFlag flag = true)
    (h : arg.toList.head? ≠ some '-') :
    expression (flags ++ arg :: args) = " ".intercalate (arg :: args) := by
  rw [expression, expressionArguments, List.dropWhile_append_of_pos hflags,
    List.dropWhile_cons_of_neg (by simp [isFlag_of_head?_ne h])]

lemma run_append (o : Options) (args : List String)
    (hflags : ∀ flag ∈ flags, isFlag flag = true) (h : arg.toList.head? ≠ some '-')
    (hread : ∀ rest, Options.none.read (flags ++ rest) = o.read rest) :
    Request.ofArguments (flags ++ arg :: args) = .calculate o (arg :: args) ∧
      run (flags ++ arg :: args) = evaluate o (" ".intercalate (arg :: args)) := by
  have hrequest : Request.ofArguments (flags ++ arg :: args) = .calculate o (arg :: args) := by
    rw [Request.ofArguments, hread, read_of_head?_ne h]
  refine ⟨hrequest, ?_⟩
  simp only [run, hrequest, expression_append hflags h]

/-- If the options ask for something else than a calculation, then it does not matter what follows
them. -/
lemma run_congr_of_request {request : Request}
    (hrequest : ∀ rest, Request.ofArguments (flags ++ rest) = request)
    (hne : ∀ o operands, request ≠ .calculate o operands) (rest rest' : List String) :
    run (flags ++ rest) = run (flags ++ rest') := by
  simp only [run, hrequest]
  cases request with
  | calculate o operands => exact absurd rfl (hne o operands)
  | help => rfl
  | version => rfl
  | misuse => rfl

/-- Whether an expression is given as one argument or cut into several makes no difference, however
its tokens are spaced in them and whatever options stand in front: the run ends with the same exit
code and, unless it is asked for the tokens, it writes the same. All of the arguments belong to the
expression, and none of them is taken for an option. -/
theorem run_cut (s : String) (e : Expr) (cuts : List (List Token)) (args flags : List String)
    (hs : (parse s).result = .ok e)
    (hcuts : cuts.flatten =
      (Token.tokens s).filter fun t => t.kind ≠ .whitespace ∧ t.kind ≠ .eof)
    (hne : ∀ ts ∈ cuts, ts ≠ []) (hargs : List.Forall₂ Token.Written cuts args)
    (hflags : ∀ flag ∈ flags, IsOption flag) :
    (run (flags ++ args)).exitCode = (run (flags ++ [s])).exitCode ∧
    ((∀ o operands, Request.ofArguments (flags ++ [s]) = .calculate o operands →
        o.tokens = false) →
      (run (flags ++ args)).output = (run (flags ++ [s])).output) ∧
    ∀ o operands, Request.ofArguments (flags ++ [s]) = .calculate o operands →
      operands = [s] ∧ Request.ofArguments (flags ++ args) = .calculate o args ∧
        expression (flags ++ args) = " ".intercalate args := by
  have hlexemes : cuts.flatten = (Cursor.ofText s).lexemes := by
    rw [hcuts, Token.tokens_eq]
    rfl
  obtain ⟨ps, hps⟩ := exists_piecesOf_lexemes hs
  rw [← hlexemes] at hps
  have hcontent : Cursor.content s.toList = Token.content cuts.flatten := by
    rw [hlexemes]
    rfl
  have hvisible : SameVisible (" ".intercalate args) s := sameVisible_intercalate hargs hps hcontent
  -- an expression does not start with a minus sign, so its text is not taken for an option
  have hsingle : s.toList.head? ≠ some '-' := hps.head?_ne hcontent
  cases hargs with
  | nil =>
    -- no arguments would leave no tokens, but an expression has some
    obtain ⟨p, hp, -⟩ := hps.starts
    rw [List.map_eq_nil_iff.1 hps.content.symm] at hp
    cases hp
  | @cons ts arg cuts args harg hargs =>
    have hpieces : PiecesOf (ts ++ cuts.flatten) ps := hps
    obtain ⟨qs, hqs⟩ := hpieces.of_append (hne ts List.mem_cons_self)
    have hfirst : arg.toList.head? ≠ some '-' := hqs.head?_ne (harg.content_eq hqs)
    rcases read_append hflags .none with ⟨o, hpassed, hread⟩ | ⟨request, hnot, hread⟩
    · -- the options are read through, and the text of each run is evaluated
      obtain ⟨hrequest, hrun⟩ := run_append o args hpassed hfirst hread
      obtain ⟨hrequest', hrun'⟩ := run_append o [] hpassed hsingle hread
      obtain ⟨hexit, houtput⟩ := evaluate_alike hvisible o
      rw [hrun, hrun', String.intercalate_singleton]
      refine ⟨hexit, ?_, ?_⟩
      · intro htokens
        exact houtput (htokens o _ hrequest')
      · intro o' operands h
        rw [hrequest'] at h
        cases h
        exact ⟨rfl, hrequest, expression_append hpassed hfirst⟩
    · -- the options end the reading, whatever comes behind them
      rw [run_congr_of_request hread hnot (arg :: args) [s]]
      refine ⟨rfl, fun _ => rfl, ?_⟩
      intro o operands h
      rw [Request.ofArguments, hread] at h
      exact absurd h (hnot o operands)

theorem run_cut_difference :
    (run ["-p", "10", "- 3"]).output = (run ["-p", "10-3"]).output ∧
      Request.ofArguments ["-p", "10", "- 3"] = .calculate ⟨false, true, 0⟩ ["10", "- 3"] := by
  let ten : Token := ⟨.number, "10", 0⟩
  let minus : Token := ⟨.operator .sub, "-", 2⟩
  let three : Token := ⟨.number, "3", 3⟩
  have hs : (parse "10-3").result = .ok (.binary .sub (.number 10) (.number 3) ⟨2, 1⟩) := by
    decide +kernel
  have hten : Token.Written [ten] "10" :=
    .cons isWhiteSpace_empty (.nil isWhiteSpace_empty)
  have hthree : Token.Written [minus, three] "- 3" :=
    .cons isWhiteSpace_empty (.cons isWhiteSpace_space (.nil isWhiteSpace_empty))
  have hflags : ∀ flag ∈ ["-p"], IsOption flag :=
    List.forall_mem_singleton.2 (.inr ⟨['p'], by decide, rfl, by simp⟩)
  have hrequest : Request.ofArguments ["-p", "10-3"] = .calculate ⟨false, true, 0⟩ ["10-3"] := by
    decide
  obtain ⟨-, houtput, hoperands⟩ := run_cut "10-3" _ [[ten], [minus, three]] ["10", "- 3"] ["-p"] hs
    (by decide +kernel) (by simp) (.cons hten (.cons hthree .nil)) hflags
  refine ⟨houtput ?_, (hoperands _ _ hrequest).2.1⟩
  intro o operands h
  cases hrequest.symm.trans h
  rfl

end CommandLine

end Calculator
