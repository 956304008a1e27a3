import Calculator.Decimal.Basic

/-!
# The shortest decimal

Of the decimals that read back as a given double, the shortest one is written: the one with the
fewest digits, and of those with equally many the one nearest to the double, the larger one if two
are equally near. It is found by dropping ever fewer of the digits of the exact value. On each
grid of powers of ten only the two neighbours of the exact value need a look, since whatever reads
back as the double lies in an interval around it.
-/

namespace Calculator.Decimal

/-- The two multiples of `10 ^ drop` units next to `d`, the nearer one first. -/
def neighbours (d : Decimal) (drop : Nat) : List Decimal :=
  let unit := Nat.pow 10 drop
  let below : Decimal := ⟨d.digits / unit, d.exponent + drop⟩
  let above : Decimal := ⟨d.digits / unit + 1, d.exponent + drop⟩
  if 2 * (d.digits % unit) < unit then [below, above] else [above, below]

/-- The first neighbour of `d` that reads back as `x` when `drop` digits are dropped, then one
fewer, and so on. When no digit may be dropped, `d` itself. -/
def dropDigits (x : Float) (d : Decimal) : (drop : Nat) → Decimal
  | 0 => d
  | drop + 1 =>
    match (d.neighbours (drop + 1)).find? fun s => decide (s.toFloat = x) with
    | some s => s
    | none => dropDigits x d drop

/-- What is written reads back, provided that the exact value does. -/
theorem toFloat_dropDigits {x : Float} {d : Decimal} (h : d.toFloat = x) (drop : Nat) :
    (dropDigits x d drop).toFloat = x := by
  induction drop with
  | zero => exact h
  | succ drop ih =>
    rw [dropDigits]
    split
    · next s hs => simpa using List.find?_some hs
    · exact ih

/-- The shortest decimal that reads back as `x`, whose exact value is `d`. -/
def shortest (x : Float) (d : Decimal) : Decimal :=
  (dropDigits x d ((Nat.toDigits 10 d.digits).length - 1)).trim

theorem toFloat_shortest {x : Float} {d : Decimal} (h : d.toFloat = x) :
    (shortest x d).toFloat = x := by
  rw [shortest, toFloat_trim, toFloat_dropDigits h]

end Calculator.Decimal
