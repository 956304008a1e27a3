import Calculator.CommandLine.Run
import Calculator.Proofs.Number.Text
import Calculator.Proofs.Token.Respelling

/-!
# Lists of tokens

The list of the tokens of a text has a line for each of them, with the name of its kind, its literal
and the number that it spells, a space between them. No name and no literal has a space in it, and
nothing in a line has a line feed in it, so that the list can be read back: it tells the kinds and
the literals of the tokens, and no more than these.
-/

namespace Calculator

variable {s : String} {t : Token} {ts : List Token}

namespace Token

/-! ### Reading a list back -/

/-- All kinds of tokens. -/
def Kind.all : List Kind :=
  [.eof, .whitespace, .text, .number, .leftParen, .rightParen, .operator .add, .operator .sub,
    .operator .mul, .operator .div]

/-- The kind of this name. -/
def Kind.ofLabel? (label : String) : Option Kind :=
  Kind.all.find? fun kind => kind.label = label

/-- The kind and the literal in a line of a list. -/
def ofLine? (line : List Char) : Option (Kind × String) :=
  match line.splitOn ' ' with
  | label :: literal :: _ => (Kind.ofLabel? (.ofList label)).map fun kind => (kind, .ofList literal)
  | _ => none

/-- The kinds and the literals in a list, every line of which ends in a line feed. -/
def readList (s : String) : List (Kind × String) :=
  (s.toList.splitOn '\n').dropLast.filterMap ofLine?

lemma Kind.ofLabel?_label (kind : Kind) : ofLabel? kind.label = some kind := by
  cases kind with
  | operator op => cases op <;> decide
  | _ => decide

/-! ### Lines -/

lemma Kind.not_isBlank_label {c : Char} {kind : Kind} (hc : c ∈ kind.label.toList) :
    isBlank c = false := by
  have hall : (kind.label.toList.all fun c => !isBlank c) = true := by
    cases kind with
    | operator op => cases op <;> decide
    | _ => decide
  simpa using List.all_eq_true.1 hall c hc

lemma Kind.Fits.not_isBlank {c : Char} {kind : Kind} {w : String} (h : kind.Fits w)
    (hk : kind ≠ .whitespace) (hc : c ∈ w.toList) : isBlank c = false := by
  have hword (h : IsWordText w) : isBlank c = false :=
    (isWordChar_eq_true_iff.1 (isWordChar_iff.2 (h.2 c hc))).1
  have hsymbol {d : Char} (h : w = .singleton d) (hd : isBlank d = false) : isBlank c = false := by
    obtain rfl : c = d := by simpa [h] using hc
    exact hd
  cases kind with
  | eof => simp [show w = "" from h] at hc
  | whitespace => exact absurd rfl hk
  | text => exact hword h.1
  | number => exact hword h.1
  | leftParen => exact hsymbol (d := '(') h rfl
  | rightParen => exact hsymbol (d := ')') h rfl
  | operator op => exact hsymbol h (by cases op <;> rfl)

lemma exists_fits (ht : t ∈ tokens s) : ∃ w, t.Fits w := by
  rw [tokens_eq] at ht
  have htile : Tile s (Cursor.ofText s).tokens := Cursor.tile_tokens (a := []) rfl
  obtain ⟨n, w, -, hfits⟩ := htile.of_mem ht
  exact ⟨w, hfits⟩

/-- No literal has a blank in it. -/
lemma not_isBlank_literal {c : Char} (ht : t ∈ tokens s) (hc : c ∈ t.literal.toList) :
    isBlank c = false := by
  obtain ⟨w, hlit, hfits⟩ := exists_fits ht
  by_cases hk : t.kind = .whitespace
  · simp [hlit, hk] at hc
  · rw [hlit, if_neg hk] at hc
    exact hfits.not_isBlank hk hc

/-- The kinds that are listed without a literal have none. -/
lemma literalText_eq (ht : t ∈ tokens s) : t.literalText = t.literal := by
  obtain ⟨w, hlit, hfits⟩ := exists_fits ht
  obtain ⟨kind, literal, offset⟩ := t
  cases kind with
  | eof =>
    obtain rfl : w = "" := hfits
    exact hlit.symm
  | whitespace => exact hlit.symm
  | _ => rfl

lemma toList_text (t : Token) : ∃ value : List Char, '\n' ∉ value ∧
    t.text.toList = t.kind.label.toList ++ ' ' :: (t.literalText.toList ++ ' ' :: value) := by
  refine ⟨((t.value?.map Number.text).getD "null").toList, ?_, by simp [text]⟩
  cases t.value? with
  | none => decide
  | some x =>
    intro hc
    rw [Option.map_some, Option.getD_some, Number.toList_text] at hc
    exact absurd (Number.isDigit_or_mem_of_mem_write hc) (by decide)

/-- A token is listed in one line. -/
lemma not_mem_text (ht : t ∈ tokens s) : '\n' ∉ t.text.toList := by
  obtain ⟨value, hvalue, htext⟩ := t.toList_text
  have hfeed : isBlank '\n' = true := rfl
  rw [htext, literalText_eq ht]
  intro hc
  simp only [List.mem_append, List.mem_cons] at hc
  rcases hc with hc | hc | hc | hc | hc
  · exact Bool.false_ne_true ((Kind.not_isBlank_label hc).symm.trans hfeed)
  · cases hc
  · exact Bool.false_ne_true ((not_isBlank_literal ht hc).symm.trans hfeed)
  · cases hc
  · exact hvalue hc

/-- A line tells the kind and the literal of its token. -/
lemma ofLine?_text (ht : t ∈ tokens s) : ofLine? t.text.toList = some (t.kind, t.literal) := by
  obtain ⟨value, -, htext⟩ := t.toList_text
  have hspace : isBlank ' ' = true := rfl
  have hlabel : ' ' ∉ t.kind.label.toList := by
    intro hc
    exact Bool.false_ne_true ((Kind.not_isBlank_label hc).symm.trans hspace)
  have hliteral : ' ' ∉ t.literal.toList := by
    intro hc
    exact Bool.false_ne_true ((not_isBlank_literal ht hc).symm.trans hspace)
  rw [htext, literalText_eq ht, ofLine?, List.splitOn_append_cons_self_of_not_mem hlabel,
    List.splitOn_append_cons_self_of_not_mem hliteral]
  simp [Kind.ofLabel?_label]

/-! ### Lists -/

lemma splitOn_lines (h : ∀ t ∈ ts, '\n' ∉ t.text.toList) :
    (ts.flatMap fun t => t.text.toList ++ ['\n']).splitOn '\n' =
      ts.map (fun t => t.text.toList) ++ [[]] := by
  induction ts with
  | nil => rfl
  | cons t ts ih =>
    obtain ⟨ht, hts⟩ := List.forall_mem_cons.1 h
    rw [List.flatMap_cons, List.append_assoc, List.singleton_append,
      List.splitOn_append_cons_self_of_not_mem ht, ih hts]
    rfl

lemma count_lines (h : ∀ t ∈ ts, '\n' ∉ t.text.toList) :
    (ts.flatMap fun t => t.text.toList ++ ['\n']).count '\n' = ts.length := by
  induction ts with
  | nil => rfl
  | cons t ts ih =>
    obtain ⟨ht, hts⟩ := List.forall_mem_cons.1 h
    rw [List.flatMap_cons, List.count_append, ih hts, List.count_append, List.count_eq_zero.2 ht,
      List.length_cons]
    simp [Nat.add_comm]

end Token

namespace CommandLine

lemma toList_listTokens (s : String) :
    (listTokens s).output.toList =
      (Token.tokens s).flatMap fun t => t.text.toList ++ ['\n'] := by
  simp [listTokens, line, String.toList_join, List.flatMap_map]

lemma readList_listTokens (s : String) :
    Token.readList (listTokens s).output = Token.content (Token.tokens s) := by
  have hlines (t : Token) (ht : t ∈ Token.tokens s) : '\n' ∉ t.text.toList := Token.not_mem_text ht
  rw [Token.readList, toList_listTokens, Token.splitOn_lines hlines, List.dropLast_concat,
    List.filterMap_map, Token.content, ← List.filterMap_eq_map]
  apply List.filterMap_congr
  intro t ht
  exact Token.ofLine?_text ht

/-- A list of tokens depends on their kinds and literals only. -/
lemma output_listTokens (s : String) :
    (listTokens s).output = .join ((Token.content (Token.tokens s)).map fun p =>
      line (Token.text ⟨p.1, p.2, 0⟩)) := by
  rw [Token.content, List.map_map]
  rfl

/-- The kinds and the literals of the tokens of a text can be read back from the list of them. A
text that is put together from these has the same list, and is read alike. -/
theorem listTokens_lossless (s : String) :
    (listTokens s).output.toList.count '\n' = (Token.tokens s).length ∧
    Token.readList (listTokens s).output = Token.content (Token.tokens s) ∧
    (∀ s' : String, (listTokens s).output = (listTokens s').output ↔
      Token.content (Token.tokens s) = Token.content (Token.tokens s')) ∧
    Token.content (Token.tokens (Token.respell s)) = Token.content (Token.tokens s) ∧
    (listTokens (Token.respell s)).output = (listTokens s).output ∧
    Parsing.ResultAlike (Corresponding (Token.respell s) s)
      (Expr.Alike (Corresponding (Token.respell s) s)) (Token.respell s) s
      (parse (Token.respell s)).result (parse s).result := by
  refine ⟨?_, readList_listTokens s, ?_, Token.content_tokens_respell s, ?_, ?_⟩
  · rw [toList_listTokens]
    exact Token.count_lines fun t ht => Token.not_mem_text ht
  · intro s'
    constructor
    · intro h
      rw [← readList_listTokens, ← readList_listTokens, h]
    · intro h
      rw [output_listTokens, output_listTokens, h]
  · rw [output_listTokens, output_listTokens, Token.content_tokens_respell]
  · exact parse_alike_of_sameVisible (sameVisible_of_content (Token.content_tokens_respell s))

end CommandLine

end Calculator
