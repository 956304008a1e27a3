import Calculator.Token.Basic

/-!
# Cursors

A cursor stands somewhere in a text and reads tokens off what is left of it. Three characters are
blank, six are tokens by themselves, and the others make up words. A run of blanks is one token,
and so is a run of word characters, as long as the text has it; the character behind a run is read
to see that the run is over, and then given back. At the end of the text every reading gives the
end token and moves nothing.
-/

namespace Calculator

/-! ### Characters -/

/-- A character that separates tokens: a space, a tabulator or a line feed. -/
def isBlank (c : Char) : Bool :=
  c = ' ' ∨ c = '\t' ∨ c = '\n'

/-- A character that is a token by itself. -/
def isSymbol (c : Char) : Bool :=
  (Token.Kind.ofSymbol? c).isSome

/-- A character of a word: neither blank nor a token by itself. -/
def isWordChar (c : Char) : Bool :=
  !isBlank c && !isSymbol c

/-- Whether a word consists of digits with at most one point. -/
def isPlainNumeral (cs : List Char) : Bool :=
  cs.all (fun c => c.isDigit || c == '.') && cs.count '.' ≤ 1

/-- A word is a number if it is a plain numeral, and text otherwise. -/
def Token.Kind.ofWord (cs : List Char) : Kind :=
  if isPlainNumeral cs then .number else .text

/-! ### Reading characters -/

/-- A place in a text, with all that follows it. -/
structure Cursor where
  rest : List Char
  /-- The bytes that lie behind the cursor. -/
  offset : Nat
deriving DecidableEq

namespace Cursor

/-- The start of a text. -/
def ofText (s : String) : Cursor :=
  ⟨s.toList, 0⟩

/-- Step over the next character, if there is one. -/
def read? (k : Cursor) : Option (Char × Cursor) :=
  match k.rest with
  | [] => none
  | c :: cs => some (c, ⟨cs, k.offset + c.utf8Size⟩)

/-- Step back over the character that was just read. -/
def giveBack (k : Cursor) (c : Char) : Cursor :=
  ⟨c :: k.rest, k.offset - c.utf8Size⟩

@[simp] theorem read?_nil (n : Nat) : read? ⟨[], n⟩ = none := rfl

@[simp] theorem read?_cons (c : Char) (cs : List Char) (n : Nat) :
    read? ⟨c :: cs, n⟩ = some (c, ⟨cs, n + c.utf8Size⟩) := rfl

theorem read?_eq_none_iff {k : Cursor} : k.read? = none ↔ k.rest = [] := by
  rcases k with ⟨_ | _, _⟩ <;> simp

theorem read?_eq_some_iff {k k' : Cursor} {c : Char} :
    k.read? = some (c, k') ↔ k.rest = c :: k'.rest ∧ k'.offset = k.offset + c.utf8Size := by
  rcases k with ⟨_ | ⟨d, ds⟩, n⟩ <;> rcases k' with ⟨cs, m⟩ <;> grind [read?]

/-- Giving back what was read restores the cursor. -/
theorem giveBack_of_read? {k k' : Cursor} {c : Char} (h : k.read? = some (c, k')) :
    k'.giveBack c = k := by
  obtain ⟨h₁, h₂⟩ := read?_eq_some_iff.1 h
  simp [giveBack, ← h₁, h₂]

theorem length_lt_of_read? {k k' : Cursor} {c : Char} (h : k.read? = some (c, k')) :
    k'.rest.length < k.rest.length := by
  simp [(read?_eq_some_iff.1 h).1]

/-- Step over the longest run of characters of one class, which may be empty. -/
def readWhile (p : Char → Bool) (k : Cursor) : List Char × Cursor :=
  match h : k.read? with
  | none => ([], k)
  | some (c, k') =>
    if p c then
      have := length_lt_of_read? h
      let (run, k'') := readWhile p k'
      (c :: run, k'')
    else
      ([], k'.giveBack c)
termination_by k.rest.length

/-! ### Reading tokens -/

/-- Read the next token. -/
def nextToken (k : Cursor) : Token × Cursor :=
  match k.read? with
  | none => (⟨.eof, "", k.offset⟩, k)
  | some (c, k') =>
    match Token.Kind.ofSymbol? c with
    | some kind => (⟨kind, .singleton c, k.offset⟩, k')
    | none =>
      if isBlank c then
        (⟨.whitespace, "", k.offset⟩, (k'.readWhile isBlank).2)
      else
        let (run, k'') := k'.readWhile isWordChar
        (⟨.ofWord (c :: run), .ofList (c :: run), k.offset⟩, k'')

/-- A token starts where the cursor stands. -/
@[simp] theorem offset_nextToken (k : Cursor) : k.nextToken.1.offset = k.offset := by
  fun_cases nextToken k <;> rfl

theorem kind_ofSymbol?_ne_eof {c : Char} : Token.Kind.ofSymbol? c ≠ some .eof := by
  fun_cases Token.Kind.ofSymbol? c <;> simp

theorem kind_ofWord_ne_eof (cs : List Char) : Token.Kind.ofWord cs ≠ .eof := by
  unfold Token.Kind.ofWord
  split <;> simp

/-- The end token is read at the end of the text and nowhere else. -/
theorem kind_nextToken_eq_eof_iff {k : Cursor} : k.nextToken.1.kind = .eof ↔ k.rest = [] := by
  rw [← read?_eq_none_iff]
  fun_cases nextToken k with
  | case1 h => simp [h]
  | case2 c k' h kind hk =>
    have : kind ≠ .eof := by
      rintro rfl
      exact kind_ofSymbol?_ne_eof hk
    simp [h, this]
  | case3 c k' h hk hb => simp [h]
  | case4 c k' h hk hb run k'' hr => simp [h, kind_ofWord_ne_eof]

theorem length_readWhile_le (p : Char → Bool) (k : Cursor) :
    (k.readWhile p).2.rest.length ≤ k.rest.length := by
  fun_induction readWhile p k with
  | case1 k h => exact Nat.le_refl _
  | case2 k c k' h hp hlt run k'' hrun ih =>
    rw [hrun] at ih
    exact Nat.le_trans ih (Nat.le_of_lt hlt)
  | case3 k c k' h hp => simp [giveBack_of_read? h]

/-- Reading a token moves the cursor forward, unless it stands at the end. -/
theorem length_nextToken_lt {k : Cursor} (h : k.nextToken.1.kind ≠ .eof) :
    k.nextToken.2.rest.length < k.rest.length := by
  revert h
  fun_cases nextToken k with
  | case1 h => simp
  | case2 c k' h kind hk => exact fun _ => length_lt_of_read? h
  | case3 c k' h hk hb =>
    exact fun _ => Nat.lt_of_le_of_lt (length_readWhile_le isBlank k') (length_lt_of_read? h)
  | case4 c k' h hk hb run k'' hr =>
    have := length_readWhile_le isWordChar k'
    rw [hr] at this
    exact fun _ => Nat.lt_of_le_of_lt this (length_lt_of_read? h)

/-- At the end of the text the cursor stays where it is. -/
theorem nextToken_of_rest_eq_nil {k : Cursor} (h : k.rest = []) :
    k.nextToken = (⟨.eof, "", k.offset⟩, k) := by
  rw [nextToken, read?_eq_none_iff.2 h]

end Cursor

end Calculator
