import Calculator.Proofs.Token.Partition

/-!
# Tokens across a seam

Of two texts behind one another the tokens are those of the first, without its end token, and then
those of the second, moved along. There is one exception: a run of blanks or a word that goes on
from the first text into the second is one token, and what each of the two texts has of it is a
token of that text. Nothing else of one text shows in the tokens of the other.
-/

namespace Calculator

variable {a b w : List Char} {n : Nat} {p : Char → Bool}

/-! ### Runs at the end of a text -/

/-- What a text ends with of a class can be taken off as a whole. -/
lemma EndsIn.exists_run (h : EndsIn p a) :
    ∃ a' w, a = a' ++ w ∧ w ≠ [] ∧ (∀ c ∈ w, p c = true) ∧ ¬ EndsIn p a' := by
  induction a using List.reverseRecOn with
  | nil => exact absurd h (not_endsIn_of_forall (by simp))
  | append_singleton a c ih =>
    have hc : p c = true := by
      by_contra hc
      exact not_endsIn_of_forall (by simpa using hc) ((endsIn_append_iff (by simp)).1 h)
    by_cases ha : EndsIn p a
    · obtain ⟨a', w, rfl, -, hw, ha'⟩ := ih ha
      refine ⟨a', w ++ [c], by simp, by simp, ?_, ha'⟩
      simpa [or_imp, forall_and, hc] using hw
    · exact ⟨a, [c], rfl, by simp, by simpa using hc, ha⟩

lemma StartsIn.exists_run (h : StartsIn p b) :
    ∃ w b', b = w ++ b' ∧ w ≠ [] ∧ (∀ c ∈ w, p c = true) ∧ ¬ StartsIn p b' := by
  obtain ⟨c, cs, rfl, hc⟩ := h.exists_cons
  refine ⟨c :: cs.takeWhile p, cs.dropWhile p, by simp, by simp, ?_, not_startsIn_dropWhile p cs⟩
  simpa [hc] using fun d hd => List.mem_takeWhile_imp hd

/-- A run is apart from what is before it, if that does not end in the same class. -/
lemma apart_run {q : Char → Bool} (hpq : ∀ c, p c = true → q c = false) (hne : w ≠ [])
    (hw : ∀ c ∈ w, p c = true) (ha : ¬ EndsIn p a) (b : List Char) :
    ¬ Joined p a (w ++ b) ∧ ¬ Joined q a (w ++ b) := by
  obtain ⟨c, w, rfl⟩ := List.exists_cons_of_ne_nil hne
  constructor
  · intro h
    exact ha h.1
  · exact not_joined_cons (hpq c (hw c List.mem_cons_self)) a (w ++ b)

namespace Cursor

/-! ### Tokens that are moved or fused -/

lemma tokens_eq_dropLast_append (cs : List Char) (n : Nat) :
    tokens ⟨cs, n⟩ = (tokens ⟨cs, n⟩).dropLast ++ [⟨.eof, "", n + String.utf8Len cs⟩] := by
  obtain ⟨ts, hts, -⟩ := tokens_eq_append cs n
  rw [hts, List.dropLast_concat]

/-- The tokens of two texts behind one another, with a run of the class `p` that goes on from one
into the other. A run `w` by itself is the token `f w`, wherever it stands. -/
theorem tokens_fused {f : List Char → Token}
    (hrun : ∀ {w b : List Char} {n : Nat}, w ≠ [] → (∀ c ∈ w, p c = true) → ¬ StartsIn p b →
      tokens ⟨w ++ b, n⟩ = (f w).shift n :: tokens ⟨b, n + String.utf8Len w⟩)
    (hapart : ∀ {a w : List Char}, w ≠ [] → (∀ c ∈ w, p c = true) → ¬ EndsIn p a →
      ∀ b, Apart a (w ++ b))
    (h : Joined p a b) :
    ∃ us v w m vs, tokens ⟨a, 0⟩ = us ++ [(f v).shift m, ⟨.eof, "", String.utf8Len a⟩] ∧
      tokens ⟨b, 0⟩ = f w :: vs ∧
      tokens ⟨a ++ b, 0⟩ =
        us ++ (f (v ++ w)).shift m :: vs.map (Token.shift (String.utf8Len a)) := by
  obtain ⟨a, v, rfl, hne, hv, ha⟩ := h.1.exists_run
  obtain ⟨w, b, rfl, hne', hw, hb⟩ := h.2.exists_run
  have hnil : ¬ StartsIn p [] := by simp [StartsIn]
  have hvw : ∀ c ∈ v ++ w, p c = true := by
    simpa [or_imp, forall_and] using ⟨hv, hw⟩
  refine ⟨(tokens ⟨a, 0⟩).dropLast, v, w, String.utf8Len a, tokens ⟨b, String.utf8Len w⟩,
    ?_, ?_, ?_⟩
  · rw [← List.append_nil v, tokens_append (hapart hne hv ha []), hrun hne hv hnil, tokens_nil]
    simp
  · rw [hrun hne' hw hb, Nat.zero_add]
    rfl
  · rw [← tokens_add, List.append_assoc, ← List.append_assoc v,
      tokens_append (hapart (by simp [hne]) hvw ha b), hrun (by simp [hne]) hvw hb]
    simp [Nat.add_comm, Nat.add_assoc]

end Cursor

/-! ### Texts -/

/-- A word is a number or text, according to its characters. -/
lemma Token.Kind.ofWord_cases (w : List Char) :
    ofWord w = .number ∧ IsNumeralText (.ofList w) ∨
      ofWord w = .text ∧ ¬ IsNumeralText (.ofList w) := by
  rw [isNumeralText_iff, ofWord]
  cases isPlainNumeral w <;> simp

lemma isBlank_eq : isBlank = fun c => decide (c ∈ [' ', '\t', '\n']) := by
  funext c
  simp [isBlank]

lemma isWordChar_eq :
    isWordChar = fun c => decide (c ∉ [' ', '\t', '\n', '(', ')', '+', '-', '*', '/']) := by
  funext c
  rw [Bool.eq_iff_iff, isWordChar_iff, decide_eq_true_iff]

/-- Two texts behind one another have the tokens of the first, without the end token, and then those
of the second, further on. Only if white space meets white space at the seam, or a word a word, the
two are one token, and such a word decides anew whether it is a number. -/
theorem tokens_append_eq (a b : String) :
    (¬ Joined (· ∈ [' ', '\t', '\n']) a.toList b.toList →
      ¬ Joined (· ∉ [' ', '\t', '\n', '(', ')', '+', '-', '*', '/']) a.toList b.toList →
      ∃ us, Token.tokens a = us ++ [⟨.eof, "", a.utf8ByteSize⟩] ∧
        Token.tokens (a ++ b) = us ++ (Token.tokens b).map (Token.shift a.utf8ByteSize)) ∧
    (Joined (· ∈ [' ', '\t', '\n']) a.toList b.toList →
      ∃ us t u vs, Token.tokens a = us ++ [t, ⟨.eof, "", a.utf8ByteSize⟩] ∧
        Token.tokens b = u :: vs ∧ t.kind = .whitespace ∧ u.kind = .whitespace ∧
        Token.tokens (a ++ b) =
          us ++ ⟨.whitespace, "", t.offset⟩ :: vs.map (Token.shift a.utf8ByteSize)) ∧
    (Joined (· ∉ [' ', '\t', '\n', '(', ')', '+', '-', '*', '/']) a.toList b.toList →
      ∃ us t u vs kind, Token.tokens a = us ++ [t, ⟨.eof, "", a.utf8ByteSize⟩] ∧
        Token.tokens b = u :: vs ∧ t.IsWord ∧ u.IsWord ∧
        (kind = .number ∧ IsNumeralText (t.literal ++ u.literal) ∨
          kind = .text ∧ ¬ IsNumeralText (t.literal ++ u.literal)) ∧
        Token.tokens (a ++ b) =
          us ++ ⟨kind, t.literal ++ u.literal, t.offset⟩ ::
            vs.map (Token.shift a.utf8ByteSize)) := by
  simp only [← isBlank_eq, ← isWordChar_eq, Token.tokens_eq, Cursor.ofText, String.toList_append,
    ← String.utf8Len_toList]
  refine ⟨?_, ?_, ?_⟩
  · -- nothing goes on across the seam
    intro hblank hword
    refine ⟨(Cursor.tokens ⟨a.toList, 0⟩).dropLast, ?_, ?_⟩
    · have := Cursor.tokens_eq_dropLast_append a.toList 0
      rwa [Nat.zero_add] at this
    · rw [Cursor.tokens_append ⟨hblank, hword⟩, Cursor.tokens_add]
  · -- white space goes on, a token without a literal
    intro h
    obtain ⟨us, v, w, m, vs, ha, hb, hab⟩ :=
      Cursor.tokens_fused (f := fun _ => ⟨.whitespace, "", 0⟩)
        (fun hne hw hb => by rw [Cursor.tokens_blank_run hne hw hb, Token.shift, Nat.zero_add])
        (fun hne hw ha => apart_run (fun _ => not_isWordChar_of_isBlank) hne hw ha) h
    exact ⟨us, _, _, vs, ha, hb, rfl, rfl, hab⟩
  · -- a word goes on, and its kind depends on the whole of it
    intro h
    obtain ⟨us, v, w, m, vs, ha, hb, hab⟩ :=
      Cursor.tokens_fused (f := fun w => ⟨.ofWord w, .ofList w, 0⟩)
        (fun hne hw hb => by rw [Cursor.tokens_word_run hne hw hb, Token.shift, Nat.zero_add])
        (fun hne hw ha b =>
          (apart_run (fun _ hc => (isWordChar_eq_true_iff.1 hc).1) hne hw ha b).symm) h
    have hliteral : String.ofList v ++ String.ofList w = .ofList (v ++ w) :=
      String.ofList_append.symm
    refine ⟨us, _, _, vs, .ofWord (v ++ w), ha, hb, Token.isWord_of_kind rfl,
      Token.isWord_of_kind rfl, ?_, ?_⟩
    · rw [Token.shift, hliteral]
      exact Token.Kind.ofWord_cases (v ++ w)
    · rw [hab, Token.shift, Token.shift, hliteral]

theorem tokens_append_eq_point :
    Joined (· ∉ [' ', '\t', '\n', '(', ')', '+', '-', '*', '/']) "1.5".toList ".5*2".toList ∧
      ∃ vs, Token.tokens ".5*2" = ⟨.number, ".5", 0⟩ :: vs ∧
        Token.tokens ("1.5" ++ ".5*2") = ⟨.text, "1.5.5", 0⟩ :: vs.map (Token.shift 3) := by
  have hjoined : Joined (· ∉ [' ', '\t', '\n', '(', ')', '+', '-', '*', '/']) "1.5".toList
      ".5*2".toList := ⟨⟨'5', by decide, by decide⟩, '.', by decide, by decide⟩
  have ha : Token.tokens "1.5" = [] ++ [⟨.number, "1.5", 0⟩, ⟨.eof, "", 3⟩] := by decide +kernel
  have hb : Token.tokens ".5*2" = ⟨.number, ".5", 0⟩ ::
      [⟨.operator .mul, "*", 2⟩, ⟨.number, "2", 3⟩, ⟨.eof, "", 4⟩] := by decide +kernel
  obtain ⟨us, t, u, vs, kind, hus, hvs, -, -, hkind, hab⟩ :=
    (tokens_append_eq "1.5" ".5*2").2.2 hjoined
  obtain ⟨rfl, ht⟩ := List.append_inj' (hus.symm.trans ha) rfl
  obtain ⟨rfl, -⟩ := List.cons.inj ht
  obtain ⟨rfl, -⟩ := List.cons.inj (hvs.symm.trans hb)
  rcases hkind with ⟨-, hnumeral⟩ | ⟨rfl, -⟩
  · exact absurd hnumeral.2 (by decide)
  · exact ⟨hjoined, vs, hvs, hab⟩

end Calculator
