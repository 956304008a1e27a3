import Calculator.Parsing.SyntaxError
import Calculator.Token.Cursor

/-!
# Readers

A reader supplies the tokens of a text to whoever puts an expression together. A token may be put
back and is then read once more, the one put back last coming first. Every token that comes from
the text itself is noted in a trace, and so is every operator that is found in its place; a token
that comes back is not noted again.
-/

namespace Calculator.Parsing

/-- A thing noted while reading. -/
inductive Event where
  | scanned (token : Token)
  | operator (op : Operator) (offset : Nat)
deriving DecidableEq

/-- The words for an event. -/
def Event.text : Event → String
  | .scanned token => "scanned " ++ token.text
  | .operator op offset => "operator " ++ op.text ++ " at byte " ++ toString offset

/-- The tokens of a text that are still to be read. -/
structure Reader where
  /-- The whole text. -/
  source : String
  cursor : Cursor
  /-- The tokens that were put back, the latest first. -/
  pending : List Token
  trace : Array Event
deriving DecidableEq

namespace Reader

/-- A reader at the start of a text. -/
def ofText (s : String) : Reader :=
  ⟨s, .ofText s, [], #[]⟩

/-- Read a token: the one that was put back last, or else the next one of the text. -/
def read (r : Reader) : Token × Reader :=
  match r.pending with
  | t :: ts => (t, { r with pending := ts })
  | [] =>
    let (t, k) := r.cursor.nextToken
    (t, { r with cursor := k, trace := r.trace.push (.scanned t) })

/-- Put back a token. -/
def putBack (r : Reader) (t : Token) : Reader :=
  { r with pending := t :: r.pending }

/-- Note an operator that was found in its place. -/
def note (r : Reader) (op : Operator) (offset : Nat) : Reader :=
  { r with trace := r.trace.push (.operator op offset) }

/-- The error of a token that has no place where it stands. -/
def reject (r : Reader) (fault : SyntaxError.Fault) (t : Token) : SyntaxError :=
  ⟨fault, t, r.source⟩

/-! ### Reading ends -/

/-- A bound on the tokens that can be read before the end of the text. -/
def size (r : Reader) : Nat :=
  r.pending.length + r.cursor.rest.length

@[simp] theorem size_putBack (r : Reader) (t : Token) : (r.putBack t).size = r.size + 1 := by
  simp only [size, putBack, List.length_cons]
  omega

@[simp] theorem size_note (r : Reader) (op : Operator) (n : Nat) :
    (r.note op n).size = r.size := rfl

theorem size_read_le (r : Reader) : r.read.2.size ≤ r.size := by
  rcases r with ⟨s, k, _ | ⟨t, ts⟩, trace⟩
  · by_cases h : k.nextToken.1.kind = .eof
    · have := Cursor.nextToken_of_rest_eq_nil (Cursor.kind_nextToken_eq_eof_iff.1 h)
      simp [read, size, this]
    · have := Cursor.length_nextToken_lt h
      simp only [read, size]
      omega
  · simp only [read, size, List.length_cons]
    omega

theorem size_read_lt (r : Reader) (h : r.read.1.kind ≠ .eof) : r.read.2.size < r.size := by
  rcases r with ⟨s, k, _ | ⟨t, ts⟩, trace⟩
  · have : k.nextToken.2.rest.length < k.rest.length := Cursor.length_nextToken_lt h
    simpa [read, size] using this
  · simp only [read, size, List.length_cons]
    omega

/-- Read a token, passing over white space. -/
def next (r : Reader) : Token × Reader :=
  if h : r.read.1.kind = .whitespace then
    have := r.size_read_lt (by simp [h])
    r.read.2.next
  else
    r.read
termination_by r.size

theorem next_of_whitespace {r : Reader} (h : r.read.1.kind = .whitespace) :
    r.next = r.read.2.next := by
  rw [next, dif_pos h]

theorem next_of_not_whitespace {r : Reader} (h : r.read.1.kind ≠ .whitespace) :
    r.next = r.read := by
  rw [next, dif_neg h]

/-- White space is never the next token. -/
theorem kind_next_ne_whitespace (r : Reader) : r.next.1.kind ≠ .whitespace := by
  fun_induction next r with
  | case1 r h hlt ih => exact ih
  | case2 r h => exact h

theorem size_next_le (r : Reader) : r.next.2.size ≤ r.size := by
  fun_induction next r with
  | case1 r h hlt ih => omega
  | case2 r h => exact r.size_read_le

theorem size_next_lt (r : Reader) (h : r.next.1.kind ≠ .eof) : r.next.2.size < r.size := by
  fun_induction next r with
  | case1 r hw hlt ih => exact Nat.lt_trans (ih h) hlt
  | case2 r hw => exact r.size_read_lt h

end Reader

end Calculator.Parsing
