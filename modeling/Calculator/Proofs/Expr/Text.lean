import Calculator.Proofs.Expr.Matching
import Calculator.Proofs.Number.Comparison
import Calculator.Proofs.Number.Reading
import Calculator.Proofs.Token.Partition

/-!
# The text of an expression

The text of an expression tells the expression, but for its spans. It can be read from left to
right: an opening parenthesis starts an operator with its operands, anything else starts a number,
which reaches up to the next space or closing parenthesis. This is so even though a minus sign may
be an operator as well as the first character of a number.
-/

namespace Calculator.Expr

variable {a b : Expr} {x y : Number} {us vs : List Char}

/-- The expressions are the same but for their spans. -/
def SameShown (a b : Expr) : Prop :=
  a.Matches Number.Same (fun _ _ => True) b

/-- The text is empty, or starts with a space or a closing parenthesis. -/
def EndsOperand (cs : List Char) : Prop :=
  ∀ c ∈ cs.head?, c = ' ' ∨ c = ')'

lemma write_eq_of_sameShown (h : a.SameShown b) : a.write = b.write := by
  induction h with
  | number h => rw [h.eq]
  | binary op hl hr hsp ihl ihr => simp only [write_binary, ihl, ihr]

/-! ### Reading from left to right -/

/-- A number ends where no character of a number follows. -/
lemma write_append_number (hus : EndsOperand us) (hvs : EndsOperand vs)
    (h : x.write ++ us = y.write ++ vs) : x = y ∧ us = vs := by
  let p : Char → Bool := fun c => c ∉ [' ', '(', ')']
  have hp {x : Number} : ∀ c ∈ x.write, p c = true := by
    intro c hc
    simpa [p] using Number.not_delimiter_of_mem_write hc
  have hend {us : List Char} (hus : EndsOperand us) : ¬ StartsIn p us := by
    rintro ⟨c, hc, hpc⟩
    rcases hus c hc with rfl | rfl <;> cases hpc
  obtain ⟨hx, hxs⟩ := run_exact hp (hend hus)
  obtain ⟨hy, hys⟩ := run_exact hp (hend hvs)
  rw [h] at hx hxs
  exact ⟨Number.write_injective (hx.symm.trans hy), hxs.symm.trans hys⟩

/-- A number does not start as an operator with operands does. -/
lemma write_number_append_ne (vs : List Char) : x.write ++ us ≠ '(' :: vs := by
  obtain ⟨c, cs, hcs⟩ := List.exists_cons_of_ne_nil x.write_ne_nil
  have hc : c ∉ [' ', '(', ')'] := Number.not_delimiter_of_mem_write (hcs ▸ List.mem_cons_self)
  rw [hcs, List.cons_append]
  intro h
  rw [(List.cons.inj h).1] at hc
  exact hc (by simp)

/-- The text of an expression ends where the expression does, whatever follows in its place. -/
theorem write_append (hus : EndsOperand us) (hvs : EndsOperand vs)
    (h : a.write ++ us = b.write ++ vs) : a.SameShown b ∧ us = vs := by
  induction a generalizing b us vs with
  | number x =>
    cases b with
    | number y =>
      simp only [write_number] at h
      obtain ⟨rfl, hrest⟩ := write_append_number hus hvs h
      exact ⟨.number (.inl rfl), hrest⟩
    | binary op l r sp =>
      simp only [write_number, write_binary, List.cons_append] at h
      exact absurd h (write_number_append_ne _)
  | binary op l r sp ihl ihr =>
    cases b with
    | number y =>
      simp only [write_number, write_binary, List.cons_append] at h
      exact absurd h.symm (write_number_append_ne _)
    | binary op' l' r' sp' =>
      simp only [write_binary, List.cons_append, List.append_assoc, List.nil_append,
        List.cons.injEq, true_and] at h
      obtain ⟨hop, h⟩ := h
      -- the left operand ends at a space, and the right one at the closing parenthesis
      have hspace (cs : List Char) : EndsOperand (' ' :: cs) := by simp [EndsOperand]
      have hclose (cs : List Char) : EndsOperand (')' :: cs) := by simp [EndsOperand]
      obtain ⟨hl, h⟩ := ihl (hspace _) (hspace _) h
      obtain ⟨hr, h⟩ := ihr (hclose _) (hclose _) (List.cons.inj h).2
      obtain rfl : op = op' := by
        rw [← Option.some.injEq, ← op.ofSymbol?_symbol, hop, op'.ofSymbol?_symbol]
      exact ⟨.binary op hl hr trivial, (List.cons.inj h).2⟩

/-- The text of an expression determines it up to the spans of its operators, even if more text
follows, and with it the value. -/
theorem text_eq_iff_sameShown :
    (∀ a b : Expr, a.text = b.text ↔ a.SameShown b) ∧
    (∀ (a b : Expr) (x y : String), EndsOperand x.toList → EndsOperand y.toList →
      a.text ++ x = b.text ++ y → a.SameShown b ∧ x = y) ∧
    ∀ a b : Expr, a.text = b.text →
      ValueMatches Number.Same (fun _ _ => True) a.eval b.eval := by
  have hreadable (a b : Expr) (x y : String) (hx : EndsOperand x.toList)
      (hy : EndsOperand y.toList) (h : a.text ++ x = b.text ++ y) : a.SameShown b ∧ x = y := by
    rw [← String.toList_inj, String.toList_append, String.toList_append, toList_text,
      toList_text] at h
    obtain ⟨hab, hrest⟩ := write_append hx hy h
    exact ⟨hab, String.toList_inj.1 hrest⟩
  have htext (a b : Expr) (h : a.text = b.text) : a.SameShown b := by
    have hempty : EndsOperand "".toList := by simp [EndsOperand]
    exact (hreadable a b "" "" hempty hempty (by rw [h])).1
  refine ⟨fun a b => ⟨htext a b, fun h => ?_⟩, hreadable, fun a b h => ?_⟩
  · rw [text, text, write_eq_of_sameShown h]
  · exact (htext a b h).eval (Operator.respects_of_eq fun x y => ⟨Number.Same.eq, .inl⟩)

/-- A negative number behind a minus sign, and another expression with other spans. -/
theorem text_eq_iff_sameShown_minus :
    let a : Expr := .binary .sub (.number (-1)) (.number 2) ⟨2, 1⟩
    let b : Expr := .binary .sub (.number (-1)) (.number 2) ⟨4, 1⟩
    a ≠ b ∧ a.text = "(- -1 2)" ∧ EndsOperand " 3)".toList ∧ a.text ++ " 3)" = b.text ++ " 3)" ∧
      a.SameShown b ∧ ValueMatches Number.Same (fun _ _ => True) a.eval b.eval := by
  intro a b
  have ha : a.text = "(- -1 2)" := by decide +kernel
  have hb : b.text = "(- -1 2)" := by decide +kernel
  have hend : EndsOperand " 3)".toList := by simp [EndsOperand]
  have h : a.text ++ " 3)" = b.text ++ " 3)" := by rw [ha, hb]
  exact ⟨by decide, ha, hend, h, (text_eq_iff_sameShown.2.1 a b _ _ hend hend h).1,
    text_eq_iff_sameShown.2.2 a b (ha.trans hb.symm)⟩

end Calculator.Expr
