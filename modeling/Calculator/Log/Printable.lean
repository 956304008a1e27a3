/-!
# Printable text

A log must not steer the terminal it is shown on, so control characters other than white space are
left out of it, and so are the control sequences of a terminal: the escape character and what
follows it up to the end of the sequence.

White space in the middle of a sequence is shown nevertheless, together with the text behind it.
The next control character returns to the sequence, unless a character beyond ASCII came before,
which ends it. Texts that are meant for the terminal itself are left out as a whole, white space
included. Most of these end at the terminator, a single byte, which counts wherever it stands, even
inside a longer character.

The main statements say that a text without such controls is shown as it is, and that no control
character but white space is ever shown.
-/

namespace Calculator.Log

/-! ### Characters -/

/-- A printable character of ASCII. -/
def isPlain (c : Char) : Bool :=
  ' ' ≤ c ∧ c < '\x7f'

/-- A control character that is white space. -/
def isWhite (c : Char) : Bool :=
  c = '\t' ∨ c = '\n' ∨ c = '\x0c' ∨ c = '\r'

/-- A character that is shown outside of control sequences. -/
def isShown (c : Char) : Bool :=
  isPlain c || isWhite c || '\x7f' < c

/-- Whether the terminator is among the bytes of a character. -/
def endsString (c : Char) : Bool :=
  (String.utf8EncodeChar c).contains 0x9c

/-! ### Control sequences -/

/-- Where a text stands with regard to control sequences. -/
inductive Control where
  /-- Outside of any. -/
  | text
  /-- Behind the escape character. -/
  | escape
  /-- In a short sequence: marks, and then a digit, a letter or a bracket. -/
  | short
  /-- In a sequence with parameters, which a letter or a bracket ends. -/
  | parameters
  /-- In a text for the terminal that the bell character ends. -/
  | command
  /-- At the start of a text for a device of the terminal. -/
  | device
  /-- In the parameters in front of such a text. -/
  | deviceParameters
  /-- In the marks in front of such a text. -/
  | deviceMarks
  /-- In a text that the terminator ends. -/
  | string
deriving DecidableEq

/-- Whether white space is shown at this point of a sequence. -/
def Control.showsWhite : Control → Bool
  | .text | .escape | .short | .parameters => true
  | _ => false

/-- What a printable character behind the escape character begins. -/
def Control.ofIntroducer (c : Char) : Control :=
  if c < '0' then .short
  else if c = '[' then .parameters
  else if c = ']' then .command
  else if c = 'P' then .device
  else if c = 'X' ∨ c = '^' ∨ c = '_' then .string
  else .text

/-- Where a printable character leads to. -/
def Control.afterPlain (state : Control) (c : Char) : Control :=
  match state with
  | .text => .text
  | .escape => ofIntroducer c
  | .short => if c < '0' then .short else .text
  | .parameters => if c < '@' then .parameters else .text
  | .command => .command
  | .device =>
    if c < '0' then .deviceMarks else if c < '@' then .deviceParameters else .string
  | .deviceParameters =>
    if c < '0' then .deviceMarks else if c < '<' then .deviceParameters else .string
  | .deviceMarks => if c < '0' then .deviceMarks else .string
  | .string => .string

/-- Where a character that is not printable leads to. -/
def Control.afterOther (state : Control) (c : Char) : Control :=
  match state with
  | .command => if c = '\x07' then .text else .command
  | .string => if endsString c then .text else .string
  | _ => state

/-- Pass over a character in the course of a sequence: where the text stands behind it, and whether
it is shown. -/
def Control.pass (state : Control) (c : Char) : Control × Bool :=
  if isPlain c then (state.afterPlain c, state = .text)
  else if isWhite c then (state.afterOther c, state.showsWhite)
  else (state.afterOther c, state = .text && '\x7f' < c)

/-- Pass over a character that follows one that was shown: it is shown as well, unless it is a
control character. -/
def Control.follow (state : Control) (c : Char) : Control × Bool :=
  if '\x7f' < c then (.text, true) else (state, isShown c)

/-- Pass over a character, knowing whether the one before it was shown. Three control characters
mean the same everywhere: one starts a sequence, and two break off whatever sequence there is. -/
def Control.next (state : Control) (shown : Bool) (c : Char) : Control × Bool :=
  if c = '\x1b' then (.escape, false)
  else if c = '\x18' ∨ c = '\x1a' then (.text, false)
  else if shown then state.follow c
  else state.pass c

/-! ### Texts -/

/-- What is shown of the rest of a text. -/
def printableFrom (state : Control) (shown : Bool) : List Char → List Char
  | [] => []
  | c :: cs =>
    let (state', shown') := state.next shown c
    if shown' then c :: printableFrom state' shown' cs else printableFrom state' shown' cs

/-- What is shown of a text. -/
def printable (cs : List Char) : List Char :=
  printableFrom .text false cs

theorem next_text_of_isShown {c : Char} (h : isShown c = true) (shown : Bool) :
    Control.text.next shown c = (.text, true) := by
  have h₁ : c ≠ '\x1b' := by rintro rfl; exact absurd h (by decide)
  have h₂ : c ≠ '\x18' := by rintro rfl; exact absurd h (by decide)
  have h₃ : c ≠ '\x1a' := by rintro rfl; exact absurd h (by decide)
  rw [Control.next, if_neg h₁, if_neg (by simp [h₂, h₃])]
  cases shown with
  | true =>
    rw [if_pos rfl, Control.follow]
    split <;> simp [h]
  | false =>
    rw [if_neg (by decide), Control.pass]
    split
    · simp [Control.afterPlain]
    · split
      · simp [Control.afterOther, Control.showsWhite]
      · simp_all [Control.afterOther, isShown]

/-- A text without control characters other than white space is shown as it is. -/
theorem printable_eq_self {cs : List Char} (h : ∀ c ∈ cs, isShown c = true) :
    printable cs = cs := by
  suffices ∀ shown, printableFrom .text shown cs = cs from this false
  induction cs with
  | nil => simp [printableFrom]
  | cons c cs ih =>
    intro shown
    have ih := ih (fun d hd => h d (List.mem_cons_of_mem c hd)) true
    simp [printableFrom, next_text_of_isShown (h c List.mem_cons_self), ih]

theorem isShown_of_next {state : Control} {shown : Bool} {c : Char}
    (h : (state.next shown c).2 = true) : isShown c = true := by
  revert h
  fun_cases Control.next state shown c with
  | case1 => simp
  | case2 => simp
  | case3 => unfold Control.follow; split <;> simp_all [isShown]
  | case4 => unfold Control.pass; split <;> (try split) <;> simp_all [isShown]

/-- No control character is shown unless it is white space. -/
theorem isShown_of_mem_printable {cs : List Char} {c : Char} (h : c ∈ printable cs) :
    isShown c = true := by
  suffices ∀ state shown, c ∈ printableFrom state shown cs → isShown c = true from this _ _ h
  clear h
  induction cs with
  | nil => simp [printableFrom]
  | cons d cs ih =>
    intro state shown h
    rw [printableFrom] at h
    by_cases hd : (state.next shown d).2 = true
    · simp only [hd, if_true, List.mem_cons] at h
      rcases h with rfl | h
      · exact isShown_of_next hd
      · exact ih _ _ h
    · simp only [hd] at h
      exact ih _ _ h

end Calculator.Log
