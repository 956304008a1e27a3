import Calculator.Log.Printable

/-!
# Log records

What a program tells about its own work, at five levels of importance. A limit lets through the
records that are at least as important as it, or none at all.
-/

namespace Calculator.Log

/-- How important a record is. -/
inductive Level where
  | error
  | warn
  | info
  | debug
  | trace
deriving DecidableEq

/-- How much detail a level stands for: the more, the less important. -/
def Level.detail : Level → Nat
  | .error => 1
  | .warn => 2
  | .info => 3
  | .debug => 4
  | .trace => 5

/-- The name of a level. -/
def Level.name : Level → String
  | .error => "ERROR"
  | .warn => "WARN"
  | .info => "INFO"
  | .debug => "DEBUG"
  | .trace => "TRACE"

/-- A message, with its level and the part of the program that it comes from. -/
structure Record where
  level : Level
  target : String
  message : String
deriving DecidableEq

/-- Whether a record is let through; with no limit level nothing is. -/
def Record.passes (limit : Option Level) (r : Record) : Bool :=
  limit.any fun l => r.level.detail ≤ l.detail

/-- The records that are let through. -/
def filter (limit : Option Level) (rs : List Record) : List Record :=
  rs.filter (Record.passes limit)

/-- Letting more through only adds records. -/
theorem filter_sublist_filter {l l' : Level} (h : l.detail ≤ l'.detail) (rs : List Record) :
    (filter (some l) rs).Sublist (filter (some l') rs) := by
  have hp : ∀ r, Record.passes (some l) r = true → Record.passes (some l') r = true := by
    intro r hr
    simp only [Record.passes, Option.any_some, decide_eq_true_eq] at hr ⊢
    omega
  induction rs with
  | nil => exact .slnil
  | cons r rs ih =>
    simp only [filter, List.filter_cons] at ih ⊢
    by_cases hr : Record.passes (some l) r = true
    · simpa [hr, hp r hr] using ih
    · rw [if_neg hr]
      split
      · exact ih.cons r
      · exact ih

/-- Indent the lines after the first by four spaces. -/
def indented (cs : List Char) : List Char :=
  cs.flatMap fun c => if c = '\n' then ['\n', ' ', ' ', ' ', ' '] else [c]

/-- The line of a record: its level, padded to five characters, its target and its message. -/
def Record.line (r : Record) : List Char :=
  let padding := List.replicate (5 - r.level.name.length) ' '
  ['['] ++ r.level.name.toList ++ padding ++ [' '] ++ r.target.toList ++ [']', ' ']
    ++ indented r.message.toList ++ ['\n']

/-- The text of a log as it is shown on a terminal. A control sequence that is still open at the
end of a line takes the line break with it, but does not reach into the next record. -/
def text (rs : List Record) : String :=
  .ofList (rs.flatMap fun r => printable r.line)

end Calculator.Log
