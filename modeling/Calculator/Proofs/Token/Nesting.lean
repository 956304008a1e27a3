import Calculator.Proofs.Token.Listing

/-!
# Nesting

Parentheses go one level down where they open and one level up where they close. They match if they
never go up above the level they start from, and come back to it in the end. What a pair of matching
parentheses encloses is a group.
-/

namespace Calculator

/-! ### Matching parentheses -/

section Depth

variable {α : Type} {nest : α → Int} {x l r : α} {xs ys us vs : List α}

/-- The levels that a list goes down all in all, if each of its elements goes down by `nest`. -/
def depth (nest : α → Int) : List α → Int
  | [] => 0
  | x :: xs => nest x + depth nest xs

@[simp] lemma depth_nil : depth nest [] = 0 := rfl

@[simp] lemma depth_cons : depth nest (x :: xs) = nest x + depth nest xs := rfl

@[simp] lemma depth_append (xs ys : List α) :
    depth nest (xs ++ ys) = depth nest xs + depth nest ys := by
  induction xs with
  | nil => simp
  | cons x xs ih => simp [ih, Int.add_assoc]

/-- No parenthesis is closed that was not opened before, and none stays open. -/
structure Balanced (nest : α → Int) (xs : List α) : Prop where
  depth_nonneg : ∀ us vs, xs = us ++ vs → 0 ≤ depth nest us
  depth_eq : depth nest xs = 0

lemma Balanced.nil : Balanced nest [] where
  depth_nonneg := by
    intro us vs h
    simp [(List.append_eq_nil_iff.1 h.symm).1]
  depth_eq := rfl

lemma Balanced.singleton (hx : nest x = 0) : Balanced nest [x] where
  depth_nonneg := by
    intro us vs h
    rcases List.append_eq_singleton_iff.1 h.symm with ⟨rfl, -⟩ | ⟨rfl, -⟩
    · simp
    · simp [hx]
  depth_eq := by simp [hx]

lemma Balanced.append (hxs : Balanced nest xs) (hys : Balanced nest ys) :
    Balanced nest (xs ++ ys) where
  depth_nonneg := by
    intro us vs h
    rcases List.append_eq_append_iff.1 h with ⟨ws, rfl, hws⟩ | ⟨ws, hws, -⟩
    · have := hys.depth_nonneg ws vs hws
      rw [depth_append, hxs.depth_eq]
      omega
    · exact hxs.depth_nonneg us ws hws
  depth_eq := by rw [depth_append, hxs.depth_eq, hys.depth_eq, Int.add_zero]

/-- There is nothing to match where there are no parentheses. -/
lemma Balanced.of_forall (h : ∀ x ∈ xs, nest x = 0) : Balanced nest xs := by
  induction xs with
  | nil => exact .nil
  | cons x xs ih =>
    have hx : Balanced nest [x] := .singleton (h x List.mem_cons_self)
    apply hx.append
    apply ih
    intro y hy
    exact h y (List.mem_cons_of_mem x hy)

/-- A pair of parentheses around a list in which all match. -/
lemma Balanced.enclose (hl : nest l = 1) (hr : nest r = -1) (h : Balanced nest xs) :
    Balanced nest (l :: (xs ++ [r])) where
  depth_nonneg := by
    intro us vs hsplit
    cases us with
    | nil => simp
    | cons u us =>
      obtain ⟨rfl, htail⟩ := List.cons.inj hsplit
      rw [depth_cons, hl]
      rcases List.append_eq_append_iff.1 htail with ⟨ws, rfl, hws⟩ | ⟨ws, hws, -⟩
      · rw [depth_append, h.depth_eq]
        rcases List.append_eq_singleton_iff.1 hws.symm with ⟨rfl, -⟩ | ⟨rfl, -⟩
        · simp
        · simp [hr]
      · have := h.depth_nonneg us ws hws
        omega
  depth_eq := by
    rw [depth_cons, depth_append, h.depth_eq, depth_cons, depth_nil, hl, hr]
    rfl

/-- What is balanced when it is spelled out is balanced. -/
lemma Balanced.map_of_flatMap {β γ : Type} {nest' : β → Int} {f : γ → List α} {g : γ → β}
    {zs : List γ} (hfg : ∀ z, depth nest (f z) = nest' (g z)) (h : Balanced nest (zs.flatMap f)) :
    Balanced nest' (zs.map g) := by
  have hdepth (zs : List γ) : depth nest' (zs.map g) = depth nest (zs.flatMap f) := by
    induction zs with
    | nil => rfl
    | cons z zs ih => rw [List.map_cons, depth_cons, List.flatMap_cons, depth_append, hfg, ih]
  constructor
  · intro us vs hsplit
    obtain ⟨as, bs, rfl, rfl, rfl⟩ := List.map_eq_append_iff.1 hsplit
    rw [hdepth]
    exact h.depth_nonneg _ _ List.flatMap_append
  · rw [hdepth]
    exact h.depth_eq

end Depth

namespace Token

variable {t l r : Token} {ts us vs zs : List Token} {p : Token → Bool} {d : Int}

/-- How a kind of token changes the level. -/
def Kind.nesting : Kind → Int
  | .leftParen => 1
  | .rightParen => -1
  | _ => 0

/-- How a token changes the level. -/
def nesting (t : Token) : Int := t.kind.nesting

lemma nesting_leftParen (h : t.kind = .leftParen) : t.nesting = 1 := by
  rw [nesting, h, Kind.nesting]

lemma nesting_rightParen (h : t.kind = .rightParen) : t.nesting = -1 := by
  rw [nesting, h, Kind.nesting]

/-! ### Groups -/

/-- The tokens `vs` are what a pair of matching parentheses encloses, and `zs` are all tokens
without that pair. -/
def Unwraps (ts vs zs : List Token) : Prop :=
  ∃ us l r ws, ts = us ++ l :: (vs ++ r :: ws) ∧ zs = us ++ (vs ++ ws) ∧ l.kind = .leftParen ∧
    r.kind = .rightParen ∧ Balanced nesting vs

/-- A group cannot be closed behind the tokens in which it opens. -/
lemma not_balanced_open (hl : l.kind = .leftParen) (hvs : 0 ≤ depth nesting vs) :
    ¬ Balanced nesting (us ++ l :: vs) := by
  intro h
  have hleft := h.depth_nonneg us (l :: vs) rfl
  have hdepth := h.depth_eq
  rw [depth_append, depth_cons, nesting_leftParen hl] at hdepth
  omega

lemma not_balanced_close {ws : List Token} (hr : r.kind = .rightParen)
    (hvs : depth nesting vs = 0) : ¬ Balanced nesting (vs ++ r :: ws) := by
  intro h
  have hleft := h.depth_nonneg (vs ++ [r]) ws (by simp)
  rw [depth_append, depth_cons, depth_nil, nesting_rightParen hr] at hleft
  omega

lemma not_unwraps_singleton : ¬ Unwraps [t] vs zs := by
  rintro ⟨us, l, r, ws, h, -⟩
  have := congrArg List.length h
  simp at this
  omega

/-- The pairs of parentheses in a group are its own and those of what it encloses. -/
lemma Unwraps.of_enclose (h : Unwraps (l :: (ts ++ [r])) vs zs) (hts : Balanced nesting ts) :
    vs = ts ∧ zs = ts ∨ ∃ ys, Unwraps ts vs ys ∧ zs = l :: (ys ++ [r]) := by
  obtain ⟨us, l', r', ws, h, rfl, hl', hr', hvs⟩ := h
  cases us with
  | nil =>
    obtain ⟨-, h⟩ := List.cons.inj h
    rcases List.eq_nil_or_concat ws with rfl | ⟨ws, w, rfl⟩
    · obtain rfl := (List.append_inj' h rfl).1
      exact .inl ⟨rfl, by simp⟩
    · have h' : ts ++ [r] = (vs ++ r' :: ws) ++ [w] := by simpa using h
      rw [(List.append_inj' h' rfl).1] at hts
      exact absurd hts (not_balanced_close hr' hvs.depth_eq)
  | cons u us =>
    obtain ⟨rfl, h⟩ := List.cons.inj h
    rcases List.eq_nil_or_concat ws with rfl | ⟨ws, w, rfl⟩
    · have h' : ts ++ [r] = (us ++ l' :: vs) ++ [r'] := by simpa using h
      rw [(List.append_inj' h' rfl).1] at hts
      exact absurd hts (not_balanced_open hl' (Int.le_of_eq hvs.depth_eq.symm))
    · have h' : ts ++ [r] = (us ++ l' :: (vs ++ r' :: ws)) ++ [w] := by simpa using h
      obtain ⟨rfl, hw⟩ := List.append_inj' h' rfl
      obtain ⟨rfl, -⟩ := List.cons.inj hw
      exact .inr ⟨us ++ (vs ++ ws), ⟨us, l', r', ws, rfl, rfl, hl', hr', hvs⟩, by simp⟩

/-- The pairs of parentheses on both sides of a token that is none itself. -/
lemma Unwraps.of_append (h : Unwraps (ts ++ t :: us) vs zs) (hl : t.kind ≠ .leftParen)
    (hr : t.kind ≠ .rightParen) (hts : Balanced nesting ts) :
    (∃ ys, Unwraps ts vs ys ∧ zs = ys ++ t :: us) ∨
      ∃ ys, Unwraps us vs ys ∧ zs = ts ++ t :: ys := by
  obtain ⟨as, l, r, bs, h, rfl, hl', hr', hvs⟩ := h
  rcases List.append_eq_append_iff.1 h with ⟨cs, rfl, hcs⟩ | ⟨cs, rfl, hcs⟩
  · -- the group opens at the token or behind it
    cases cs with
    | nil =>
      obtain ⟨rfl, -⟩ := List.cons.inj hcs
      exact absurd hl' hl
    | cons c cs =>
      obtain ⟨rfl, rfl⟩ := List.cons.inj hcs
      exact .inr ⟨cs ++ (vs ++ bs), ⟨cs, l, r, bs, rfl, rfl, hl', hr', hvs⟩, by simp⟩
  · -- the group opens before the token
    cases cs with
    | nil =>
      obtain ⟨rfl, -⟩ := List.cons.inj hcs
      exact absurd hl' hl
    | cons c cs =>
      obtain ⟨rfl, htail⟩ := List.cons.inj hcs
      rcases List.append_eq_append_iff.1 htail with ⟨ds, rfl, hds⟩ | ⟨ds, rfl, hds⟩
      · cases ds with
        | nil =>
          obtain ⟨rfl, -⟩ := List.cons.inj hds
          exact absurd hr' hr
        | cons d ds =>
          obtain ⟨rfl, rfl⟩ := List.cons.inj hds
          exact .inl ⟨as ++ (vs ++ ds), ⟨as, l, r, ds, rfl, rfl, hl', hr', hvs⟩, by simp⟩
      · exact absurd hts (not_balanced_open hl' (hvs.depth_nonneg cs ds rfl))

/-- The tokens that a pair of matching parentheses encloses. -/
def IsGroup (ts vs : List Token) : Prop :=
  ∃ us l r ws, ts = us ++ l :: (vs ++ r :: ws) ∧ l.kind = .leftParen ∧ r.kind = .rightParen ∧
    Balanced nesting vs

lemma isGroup_iff_exists_unwraps : IsGroup ts vs ↔ ∃ zs, Unwraps ts vs zs := by
  constructor
  · rintro ⟨us, l, r, ws, h, hpair⟩
    exact ⟨_, us, l, r, ws, h, rfl, hpair⟩
  · rintro ⟨zs, us, l, r, ws, h, -, hpair⟩
    exact ⟨us, l, r, ws, h, hpair⟩

lemma not_isGroup_singleton : ¬ IsGroup [t] vs := by
  rw [isGroup_iff_exists_unwraps]
  rintro ⟨zs, h⟩
  exact not_unwraps_singleton h

lemma isGroup_enclose_iff (hl : l.kind = .leftParen) (hr : r.kind = .rightParen)
    (hts : Balanced nesting ts) :
    IsGroup (l :: (ts ++ [r])) vs ↔ vs = ts ∨ IsGroup ts vs := by
  constructor
  · rw [isGroup_iff_exists_unwraps, isGroup_iff_exists_unwraps]
    rintro ⟨zs, h⟩
    rcases h.of_enclose hts with ⟨rfl, -⟩ | ⟨ys, h, -⟩
    · exact .inl rfl
    · exact .inr ⟨ys, h⟩
  · rintro (rfl | ⟨us, l', r', ws, rfl, h⟩)
    · exact ⟨[], l, r, [], rfl, hl, hr, hts⟩
    · exact ⟨l :: us, l', r', ws ++ [r], by simp, h⟩

lemma isGroup_append_iff (hl : t.kind ≠ .leftParen) (hr : t.kind ≠ .rightParen)
    (hts : Balanced nesting ts) :
    IsGroup (ts ++ t :: us) vs ↔ IsGroup ts vs ∨ IsGroup us vs := by
  constructor
  · simp only [isGroup_iff_exists_unwraps]
    rintro ⟨zs, h⟩
    rcases h.of_append hl hr hts with ⟨ys, h, -⟩ | ⟨ys, h, -⟩
    · exact .inl ⟨ys, h⟩
    · exact .inr ⟨ys, h⟩
  · rintro (⟨as, l, r, bs, rfl, h⟩ | ⟨as, l, r, bs, rfl, h⟩)
    · exact ⟨as, l, r, bs ++ t :: us, by simp, h⟩
    · exact ⟨ts ++ t :: as, l, r, bs, by simp, h⟩

/-! ### Counting on one level -/

/-- How many tokens of a class stand on level zero, in a list that starts on level `d`. -/
def countAt (p : Token → Bool) (d : Int) : List Token → Nat
  | [] => 0
  | t :: ts => (if p t ∧ d = 0 then 1 else 0) + countAt p (d + t.nesting) ts

@[simp] lemma countAt_nil (p : Token → Bool) (d : Int) : countAt p d [] = 0 := rfl

lemma countAt_cons (p : Token → Bool) (d : Int) (t : Token) (ts : List Token) :
    countAt p d (t :: ts) = (if p t ∧ d = 0 then 1 else 0) + countAt p (d + t.nesting) ts := rfl

lemma countAt_append (p : Token → Bool) (d : Int) (ts us : List Token) :
    countAt p d (ts ++ us) = countAt p d ts + countAt p (d + depth nesting ts) us := by
  induction ts generalizing d with
  | nil => simp
  | cons t ts ih => simp [countAt_cons, ih, Int.add_assoc, Nat.add_assoc]

/-- Tokens that stay below a level are not counted there. -/
lemma countAt_eq_zero (h : ∀ us vs, ts = us ++ vs → 0 < d + depth nesting us) :
    countAt p d ts = 0 := by
  induction ts generalizing d with
  | nil => rfl
  | cons t ts ih =>
    have hd : d ≠ 0 := by
      have := h [] (t :: ts) rfl
      simp at this
      omega
    rw [countAt_cons, if_neg (by simp [hd]), Nat.zero_add]
    apply ih
    intro us vs hsplit
    have := h (t :: us) vs (by rw [hsplit]; rfl)
    rwa [depth_cons, ← Int.add_assoc] at this

lemma countAt_le {q : Token → Bool} (hpq : ∀ t, p t = true → q t = true) (d : Int)
    (ts : List Token) : countAt p d ts ≤ countAt q d ts := by
  induction ts generalizing d with
  | nil => simp
  | cons t ts ih =>
    have := ih (d + t.nesting)
    have := hpq t
    rw [countAt_cons, countAt_cons]
    grind

/-- Tokens that do not count and do not nest can be left out. -/
lemma countAt_filter {q : Token → Bool} (d : Int)
    (hq : ∀ t ∈ ts, q t = false → p t = false ∧ t.nesting = 0) :
    countAt p d (ts.filter q) = countAt p d ts := by
  induction ts generalizing d with
  | nil => rfl
  | cons t ts ih =>
    obtain ⟨hhead, htail⟩ := List.forall_mem_cons.1 hq
    cases ht : q t with
    | true => rw [List.filter_cons_of_pos ht, countAt_cons, countAt_cons, ih _ htail]
    | false =>
      obtain ⟨hp, hnesting⟩ := hhead ht
      rw [List.filter_cons_of_neg (by simp [ht]), ih _ htail, countAt_cons]
      simp [hp, hnesting]

/-- A token of the class between balanced lists. -/
lemma countAt_split (hp : p t = true) (ht : t.nesting = 0) (hts : Balanced nesting ts)
    (us : List Token) : countAt p 0 (ts ++ t :: us) = countAt p 0 ts + 1 + countAt p 0 us := by
  rw [countAt_append, hts.depth_eq, countAt_cons, if_pos ⟨hp, rfl⟩, ht, Nat.add_assoc]
  rfl

lemma countAt_enclose (hl : l.kind = .leftParen) (hpl : p l = false) (hpr : p r = false)
    (hts : Balanced nesting ts) :
    countAt p 0 (l :: (ts ++ [r])) = 0 := by
  have hdeep : countAt p 1 ts = 0 := by
    apply countAt_eq_zero
    intro us vs hsplit
    have := hts.depth_nonneg us vs hsplit
    omega
  rw [countAt_cons, countAt_append, countAt_cons, nesting_leftParen hl, Int.zero_add, hdeep]
  simp [hpl, hpr]

/-- A list splits in one way only at the last token of a class that stands on its top level. -/
lemma split_unique {t' : Token} {ts' us' : List Token} (h : ts ++ t :: us = ts' ++ t' :: us')
    (ht : p t = true) (ht' : p t' = true) (hn : t.nesting = 0) (hn' : t'.nesting = 0)
    (hts : Balanced nesting ts) (hts' : Balanced nesting ts') (hus : countAt p 0 us = 0)
    (hus' : countAt p 0 us' = 0) : ts = ts' ∧ t = t' ∧ us = us' := by
  have hcount := congrArg (countAt p 0) h
  rw [countAt_split ht hn hts, countAt_split ht' hn' hts'] at hcount
  rcases List.append_eq_append_iff.1 h with ⟨bs, rfl, hbs⟩ | ⟨bs, rfl, hbs⟩
  · cases bs with
    | nil =>
      obtain ⟨rfl, rfl⟩ := List.cons.inj hbs
      simp
    | cons b bs =>
      obtain ⟨rfl, -⟩ := List.cons.inj hbs
      rw [countAt_split ht hn hts] at hcount
      omega
  · cases bs with
    | nil =>
      obtain ⟨rfl, rfl⟩ := List.cons.inj hbs
      simp
    | cons b bs =>
      obtain ⟨rfl, -⟩ := List.cons.inj hbs
      rw [countAt_split ht' hn' hts'] at hcount
      omega

end Token

end Calculator
