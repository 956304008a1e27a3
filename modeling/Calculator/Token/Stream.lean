import Calculator.Token.Cursor

/-!
# Token streams

A stream hands out the tokens of a text one at a time, in either of two ways. Asked for the next
token it always answers, with the end token again and again once the text is used up. Asked for
its next element it behaves as a finite sequence, whose last element is the end token: having
handed that out as an element it is finished, and has no further ones.
-/

namespace Calculator.Token

/-- A stream of tokens. -/
structure Stream where
  cursor : Cursor
  /-- Whether the end token was handed out as an element. -/
  finished : Bool
deriving DecidableEq

namespace Stream

/-- The stream of all tokens of a text. -/
def ofText (s : String) : Stream :=
  ⟨.ofText s, false⟩

/-- The next token, which does not tell whether the stream is finished. -/
def nextToken (s : Stream) : Token × Stream :=
  let (t, k) := s.cursor.nextToken
  (t, { s with cursor := k })

/-- The next element, if there is one. -/
def next? (s : Stream) : Option Token × Stream :=
  if s.finished then (none, s)
  else
    let (t, k) := s.cursor.nextToken
    (some t, ⟨k, t.kind = .eof⟩)

/-- A bound on the elements that are left. -/
def size (s : Stream) : Nat :=
  if s.finished then 0 else s.cursor.rest.length + 1

theorem size_next?_lt {s s' : Stream} {t : Token} (h : s.next? = (some t, s')) :
    s'.size < s.size := by
  rcases s with ⟨k, finished⟩
  cases finished with
  | true => simp [next?] at h
  | false =>
    obtain ⟨rfl, rfl⟩ : k.nextToken.1 = t ∧
        (⟨k.nextToken.2, k.nextToken.1.kind = .eof⟩ : Stream) = s' := by
      simpa [next?] using h
    by_cases he : k.nextToken.1.kind = .eof
    · simp [size, he]
    · have := Cursor.length_nextToken_lt he
      simp only [size, he]
      simpa using this

/-- All elements that are left, and the stream after the last of them. -/
def drain (s : Stream) : List Token × Stream :=
  match h : s.next? with
  | (none, s') => ([], s')
  | (some t, s') =>
    have := size_next?_lt h
    let (ts, s'') := drain s'
    (t :: ts, s'')
termination_by s.size

end Stream

/-- The tokens of a text, the end token being the last. -/
def tokens (s : String) : List Token :=
  (Stream.ofText s).drain.1

end Calculator.Token
