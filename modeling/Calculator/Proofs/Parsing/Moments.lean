import Calculator.Proofs.Parsing.Conventional
import Calculator.Proofs.Parsing.Frames
import Calculator.Proofs.Token.Calls

/-!
# Moment by moment

While a text is read rule by rule, the reader is steady: what came from the text and what is still
ahead make up the tokens of the text, and nothing is put back but the closing parenthesis that was
the last to come. Each step of a reader keeps this up, `Reader.Step.steady`. From it follows what
can be said of every single moment, `Descends.sound`: how many calls of a rule are in progress, that
nothing is put back where a call begins, and where the reader stands when a call ends.
-/

namespace Calculator.Parsing

/-! ### Tokens that came from the text -/

/-- The token that came from the text, if the event is of that sort. -/
def Event.token? : Event → Option Token
  | .scanned t => some t
  | .operator _ _ => none

variable {s : String} {r r' : Reader} {t : Token} {calls : List Rule} {rule : Rule} {task : Task}
  {ms : List Moment} {m : Moment} {e left : Expr} {result : Except SyntaxError Expr}

namespace Reader

/-- The tokens that came from the text, the latest one last. -/
def scanned (r : Reader) : List Token :=
  r.trace.toList.filterMap Event.token?

@[simp] lemma scanned_note (r : Reader) (op : Operator) (n : Nat) :
    (r.note op n).scanned = r.scanned := by
  simp [scanned, note, Event.token?]

lemma scanned_read (h : r.pending = []) : r.read.2.scanned = r.scanned ++ [r.read.1] := by
  obtain ⟨source, k, pending, trace⟩ := r
  obtain rfl : pending = [] := h
  simp [read, scanned, Event.token?]

lemma read_of_pending (h : r.pending = [t]) : r.read = (t, { r with pending := [] }) := by
  rw [read, h]

/-! ### Steady readers -/

/-- The reader accounts for all tokens of the text. -/
structure Steady (s : String) (r : Reader) : Prop where
  /-- What came from the text and what is ahead make up its tokens, and maybe further end tokens. -/
  complete : ∃ n, r.scanned ++ r.cursor.tokens =
    Token.tokens s ++ List.replicate n (Token.ending s)
  /-- Only the last token that came is ever put back, and only if it is a closing parenthesis. -/
  pending : r.pending = [] ∨
    ∃ t, r.pending = [t] ∧ t.kind = .rightParen ∧ r.scanned.getLast? = some t

lemma steady_ofText (s : String) : (ofText s).Steady s where
  complete := ⟨0, by simp [ofText, scanned, Token.tokens_eq]⟩
  pending := .inl rfl

/-- A token comes back that was put back, or else from the text. -/
lemma Steady.read_cases (h : r.Steady s) :
    (r.pending = [r.read.1] ∧ r.read.1.kind = .rightParen ∧ r.read.2 = { r with pending := [] } ∧
      r.scanned.getLast? = some r.read.1) ∨
    (r.pending = [] ∧ r.read.1 = r.cursor.nextToken.1 ∧ r.read.2.cursor = r.cursor.nextToken.2 ∧
      r.read.2.scanned = r.scanned ++ [r.read.1]) := by
  rcases h.pending with hp | ⟨t, hp, hk, hlast⟩
  · right
    have hscanned := scanned_read hp
    obtain ⟨source, k, pending, trace⟩ := r
    obtain rfl : pending = [] := hp
    exact ⟨rfl, rfl, rfl, hscanned⟩
  · left
    rw [read_of_pending hp]
    exact ⟨hp, hk, rfl, hlast⟩

lemma Steady.pending_read (h : r.Steady s) : r.read.2.pending = [] := by
  rcases h.pending with hp | ⟨t, hp, -⟩
  · rw [Reader.read, hp]
  · rw [read_of_pending hp]

/-- The token that was just read is the last one that came from the text. -/
lemma Steady.getLast?_scanned_read (h : r.Steady s) :
    r.read.2.scanned.getLast? = some r.read.1 := by
  rcases h.read_cases with ⟨-, -, hr, hlast⟩ | ⟨-, -, -, hscanned⟩
  · rw [hr]
    exact hlast
  · rw [hscanned, List.getLast?_concat]

lemma Steady.read (h : r.Steady s) : r.read.2.Steady s where
  complete := by
    rcases h.read_cases with ⟨-, -, hr, -⟩ | ⟨-, ht, hcursor, hscanned⟩
    · rw [hr]
      exact h.complete
    · have haccounts : Token.Stream.Accounts s r.scanned [] ⟨r.cursor, false⟩ := ⟨h.complete, rfl⟩
      rw [hscanned, hcursor, ht]
      exact haccounts.read
  pending := .inl h.pending_read

/-- Whatever happens to a steady reader, it is steady again. -/
theorem Step.steady (hstep : Step r r') (h : r.Steady s) : r'.Steady s := by
  cases hstep with
  | read => exact h.read
  | note op n =>
    constructor
    · rw [scanned_note]
      exact h.complete
    · rw [scanned_note]
      exact h.pending
  | putBack hk =>
    refine ⟨h.read.complete, .inr ⟨_, ?_, hk, h.getLast?_scanned_read⟩⟩
    rw [Reader.putBack, h.pending_read]

lemma Leads.steady (hleads : r.Leads r') (h : r.Steady s) : r'.Steady s := by
  induction hleads with
  | refl => exact h
  | tail _ hstep ih => exact hstep.steady ih

/-! ### The next token of a steady reader -/

lemma AtEnd.kind_of_next (h : r.AtEnd) (hn : r.next = (t, r')) : t.kind = .eof := by
  obtain rfl : t = r.endToken := congrArg Prod.fst (hn.symm.trans h.next)
  rfl

namespace Steady

lemma next (h : r.Steady s) (hn : r.next = (t, r')) : r'.Steady s :=
  (leads_next hn).steady h

lemma pending_next (h : r.Steady s) (hn : r.next = (t, r')) : r'.pending = [] := by
  fun_induction Reader.next r with
  | case1 r hw hlt ih => exact ih h.read hn
  | case2 r hw =>
    obtain rfl : r.read.2 = r' := congrArg Prod.snd hn
    exact h.pending_read

/-- Where the end token is read, there is nothing ahead. -/
lemma atEnd_of_next (h : r.Steady s) (hn : r.next = (t, r')) (hk : t.kind = .eof) : r'.AtEnd := by
  fun_induction Reader.next r with
  | case1 r hw hlt ih => exact ih h.read hn
  | case2 r hw =>
    obtain rfl : r.read.1 = t := congrArg Prod.fst hn
    obtain rfl : r.read.2 = r' := congrArg Prod.snd hn
    refine ⟨h.pending_read, ?_⟩
    rcases h.read_cases with ⟨-, hparen, -⟩ | ⟨-, ht, hcursor, -⟩
    · simp [hk] at hparen
    · rw [ht, Cursor.kind_nextToken_eq_eof_iff] at hk
      rw [hcursor, Cursor.nextToken_of_rest_eq_nil hk]
      exact hk

/-- The next token was put back and came from the text before, or else it comes from the text now,
behind white space. -/
lemma next_cases (h : r.Steady s) (hn : r.next = (t, r')) :
    (r.pending = [t] ∧ t.kind = .rightParen ∧ r'.scanned = r.scanned ∧
      r.scanned.getLast? = some t) ∨
    ∃ ws, (∀ u ∈ ws, u.kind = .whitespace) ∧ r'.scanned = r.scanned ++ (ws ++ [t]) := by
  fun_induction Reader.next r with
  | case1 r hw hlt ih =>
    -- white space comes from the text, since a token that was put back is a parenthesis
    right
    rcases h.read_cases with ⟨-, hk, -⟩ | ⟨-, -, -, hscanned⟩
    · simp [hk] at hw
    · rcases ih h.read hn with ⟨hp, -⟩ | ⟨ws, hws, hr⟩
      · simp [h.pending_read] at hp
      · refine ⟨r.read.1 :: ws, ?_, ?_⟩
        · simpa [hw] using hws
        · simp [hr, hscanned]
  | case2 r hw =>
    obtain rfl : r.read.1 = t := congrArg Prod.fst hn
    obtain rfl : r.read.2 = r' := congrArg Prod.snd hn
    rcases h.read_cases with ⟨hp, hk, hr, hlast⟩ | ⟨-, -, -, hscanned⟩
    · exact .inl ⟨hp, hk, by rw [hr]; rfl, hlast⟩
    · exact .inr ⟨[], by simp, hscanned⟩

/-- A class of tokens that white space and closing parentheses do not belong to is counted with each
next token of the class. -/
lemma countP_next {p : Token → Bool} (h : r.Steady s) (hn : r.next = (t, r'))
    (hp : ∀ u : Token, u.kind = .whitespace ∨ u.kind = .rightParen → p u = false) :
    r'.scanned.countP p = r.scanned.countP p + if p t then 1 else 0 := by
  rcases h.next_cases hn with ⟨-, hk, hr, -⟩ | ⟨ws, hws, hr⟩
  · rw [hr, hp t (.inr hk)]
    rfl
  · have hzero : ws.countP p = 0 := by
      rw [List.countP_eq_zero]
      intro u hu
      simp [hp u (.inl (hws u hu))]
    rw [hr, List.countP_append, List.countP_append, hzero, Nat.zero_add, List.countP_singleton]

end Steady

/-! ### Moving on -/

lemma isPrefix_scanned_read (r : Reader) : r.scanned <+: r.read.2.scanned := by
  cases hp : r.pending with
  | nil => exact ⟨_, (scanned_read hp).symm⟩
  | cons t ts =>
    rw [read, hp]
    exact List.prefix_rfl

/-- What came from the text stays there. -/
lemma Leads.isPrefix_scanned (h : r.Leads r') : r.scanned <+: r'.scanned := by
  induction h with
  | refl => exact List.prefix_rfl
  | @tail r₁ r₂ _ hstep ih =>
    refine ih.trans ?_
    cases hstep with
    | read => exact r₁.isPrefix_scanned_read
    | note op n => simp
    | putBack hk => exact r₁.isPrefix_scanned_read

lemma Leads.countP_le (h : r.Leads r') (p : Token → Bool) :
    r.scanned.countP p ≤ r'.scanned.countP p :=
  h.isPrefix_scanned.sublist.countP_le

lemma offset_le_read (r : Reader) : r.cursor.offset ≤ r.read.2.cursor.offset := by
  obtain ⟨w, -, hoffset, -⟩ := r.cursor.exists_rest_eq
  obtain ⟨source, k, pending, trace⟩ := r
  cases pending with
  | nil => simp [read, hoffset]
  | cons t ts => exact le_rfl

lemma offset_lt_read (hp : r.pending = []) (hrest : r.cursor.rest ≠ []) :
    r.cursor.offset < r.read.2.cursor.offset := by
  obtain ⟨w, -, hoffset, hnil⟩ := r.cursor.exists_rest_eq
  have hw : 0 < String.utf8Len w :=
    Nat.pos_of_ne_zero fun hw => hrest (hnil (String.utf8Len_eq_zero.1 hw))
  obtain ⟨source, k, pending, trace⟩ := r
  obtain rfl : pending = [] := hp
  simp [read, hoffset, hw]

lemma Step.offset_le (h : Step r r') : r.cursor.offset ≤ r'.cursor.offset := by
  cases h with
  | read => exact r.offset_le_read
  | note op n => exact le_rfl
  | putBack hk => exact r.offset_le_read

lemma Leads.offset_le (h : r.Leads r') : r.cursor.offset ≤ r'.cursor.offset := by
  induction h with
  | refl => exact le_rfl
  | tail _ hstep ih => exact ih.trans hstep.offset_le

/-- If nothing was put back, the cursor moves forward to the next token, unless that is the end
token. -/
lemma offset_lt_of_next (hp : r.pending = []) (hn : r.next = (t, r')) (hk : t.kind ≠ .eof) :
    r.cursor.offset < r'.cursor.offset := by
  have hrest : r.cursor.rest ≠ [] := by
    intro hrest
    exact hk (AtEnd.kind_of_next ⟨hp, hrest⟩ hn)
  refine (offset_lt_read hp hrest).trans_le ?_
  by_cases hw : r.read.1.kind = .whitespace
  · rw [next_of_whitespace hw] at hn
    exact (leads_next hn).offset_le
  · rw [next_of_not_whitespace hw] at hn
    rw [hn]

end Reader

/-- A call that succeeds moves the cursor forward. -/
lemma Descends.offset_lt (h : Descends calls (.call rule) r ms r' (.ok e)) (hp : r.pending = []) :
    r.cursor.offset < r'.cursor.offset := by
  obtain ⟨t, r₁, hn, hk, hleads⟩ := h.exists_next
  exact (Reader.offset_lt_of_next hp hn hk).trans_le hleads.offset_le

/-! ### Behind an expression -/

namespace Reader

/-- Nothing is ahead, unless it was put back. -/
def Ended (r : Reader) : Prop :=
  r.pending = [] → r.cursor.rest = []

end Reader

/-- What there is where an expression ended: a closing parenthesis that was put back, or the end. -/
lemma Reader.Steady.pending_of_ended (h : r.Steady s) (hended : r.Ended) :
    (∃ t, r.pending = [t] ∧ t.kind = .rightParen) ∨
      (r.pending = [] ∧ r.cursor.rest = [] ∧ r.read.1.kind = .eof) := by
  rcases h.pending with hp | ⟨t, hp, hk, -⟩
  · have hend : r.AtEnd := ⟨hp, hended hp⟩
    exact .inr ⟨hp, hend.rest, by rw [hend.read]; rfl⟩
  · exact .inl ⟨t, hp, hk⟩

/-- An expression is read up to the end of the text, or else up to a closing parenthesis that is put
back. -/
theorem Descends.ended (h : Descends calls task r ms r' result) (hst : r.Steady s)
    (htask : task.isForExpression) (hok : result = .ok e) : r'.Ended := by
  induction h generalizing e with
  | call h ih => exact ih hst htask hok
  | expression hv hrest ihv ihrest => exact ihrest (hv.leads.steady hst) rfl hok
  | expressionError hv ihv => cases hok
  | operator hn hk hright hrest ihright ihrest =>
    exact ihrest ((hright.leads_of_note hn).steady hst) rfl hok
  | operatorError hn hk hright ihright => cases hok
  | rightParen hn hk =>
    intro hp
    cases hp
  | stop hn hparen hop =>
    intro hp
    exact (hst.atEnd_of_next hn (Reader.of_require_eq_ok hok).1).rest
  | group | groupError | operand => cases htask

/-! ### Every moment -/

/-- Whether the token begins one more expression: a parenthesis opens, or a sum goes on. -/
def opens (t : Token) : Bool :=
  t.kind = .leftParen || isSign t

lemma not_isSign (h : t.kind = .whitespace ∨ t.kind = .rightParen) : isSign t = false := by
  rcases h with hk | hk <;> simp [isSign, hk, Token.Kind.operator?]

lemma not_opens (h : t.kind = .whitespace ∨ t.kind = .rightParen) : opens t = false := by
  have hsign := not_isSign h
  rcases h with hk | hk <;> simp [opens, hk, hsign]

lemma opens_of_operator {op : Operator} (h : t.kind = .operator op) : opens t = op.isAdditive := by
  simp [opens, h, isSign_of_operator h]

/-- The calls that the task is about to begin, among those for an expression. -/
def Task.cost : Task → Nat
  | .call .expression => 1
  | _ => 0

/-- The task may be set about: nothing was put back, unless the task is to go on, and no more calls
for an expression are in progress than there were tokens for it. -/
structure Task.Ready (calls : List Rule) (r : Reader) (task : Task) : Prop where
  pending : r.pending = [] ∨ ∃ left, task = .goOn left
  depth : calls.count .expression + task.cost ≤ 1 + r.scanned.countP opens

/-- What holds at every moment in the course of reading the text. -/
structure Moment.Sound (s : String) (m : Moment) : Prop where
  steady : m.reader.Steady s
  /-- Each call for an expression but the first is there because of a token that came before. -/
  depth : m.calls.count .expression ≤ 1 + m.reader.scanned.countP opens
  enter : m.act = .enter → m.reader.pending = []
  leave : ∀ start e, m.act = .leave start (.ok e) →
    start.cursor.offset < m.reader.cursor.offset ∧
      (m.calls.head? = some .expression → m.reader.Ended)

namespace Task.Ready

variable {r₁ : Reader} {op : Operator}

lemma follow (h : (call rule).Ready calls r) : (Task.follow rule).Ready (rule :: calls) r where
  pending := .inl (by simpa using h.pending)
  depth := by
    have hdepth := h.depth
    cases rule <;> simpa [cost, List.count_cons] using hdepth

lemma value (h : (Task.follow .expression).Ready calls r) : (call .value).Ready calls r :=
  ⟨.inl (by simpa using h.pending), h.depth⟩

lemma count_le (h : task.Ready calls r) (hleads : r.Leads r') :
    calls.count .expression ≤ 1 + r'.scanned.countP opens := by
  have hle := hleads.countP_le opens
  have hdepth := h.depth
  omega

lemma goOn (h : task.Ready calls r) (hleads : r.Leads r') (left : Expr) :
    (Task.goOn left).Ready calls r' :=
  ⟨.inr ⟨left, rfl⟩, h.count_le hleads⟩

/-- The right operand is an expression behind `+` and `-` only, and these open one. -/
lemma operand (h : (Task.goOn left).Ready calls r) (hst : r.Steady s) (hn : r.next = (t, r₁))
    (hk : t.kind = .operator op) : (call (.ofOperand op)).Ready calls (r₁.note op t.offset) where
  pending := .inl (hst.pending_next hn :)
  depth := by
    have hcount := hst.countP_next hn fun _ => not_opens
    have hdepth := h.depth
    rw [opens_of_operator hk] at hcount
    rw [Reader.scanned_note, hcount, Rule.ofOperand]
    cases hop : op.isAdditive with
    | true => simpa [cost, ← Nat.add_assoc] using hdepth
    | false => simpa [cost] using hdepth

lemma group (h : (Task.follow .value).Ready calls r) (hst : r.Steady s) (hn : r.next = (t, r₁))
    (hk : t.kind = .leftParen) : (call .expression).Ready calls r₁ where
  pending := .inl (hst.pending_next hn)
  depth := by
    have hcount := hst.countP_next hn fun _ => not_opens
    have hdepth := h.depth
    rw [hcount]
    simpa [opens, hk, cost, ← Nat.add_assoc] using hdepth

end Task.Ready

lemma sound_nextMoments (hst : r.Steady s) (h : task.Ready calls r) :
    ∀ m ∈ nextMoments calls r, m.Sound s := by
  intro m hm
  obtain ⟨⟨t, hact⟩, hcalls, hleads⟩ := of_mem_nextMoments hm
  refine ⟨hleads.steady hst, ?_, by simp [hact], by simp [hact]⟩
  rw [hcalls]
  exact h.count_le hleads

/-- A call is sound as soon as what happens in between is. -/
lemma Descends.sound_call (h : Descends (rule :: calls) (.follow rule) r ms r' result)
    (hst : r.Steady s) (hready : (Task.call rule).Ready calls r) (hms : ∀ m ∈ ms, m.Sound s) :
    ∀ m ∈ ⟨.enter, rule :: calls, r⟩ :: (ms ++ [⟨.leave r result, rule :: calls, r'⟩]),
      Moment.Sound s m := by
  have hp : r.pending = [] := by simpa using hready.pending
  rw [List.forall_mem_cons, List.forall_mem_append, List.forall_mem_singleton]
  refine ⟨⟨hst, hready.follow.count_le .refl, fun _ => hp, nofun⟩, hms,
    ⟨h.leads.steady hst, hready.follow.count_le h.leads, nofun, ?_⟩⟩
  rintro start e ⟨⟩
  refine ⟨h.call.offset_lt hp, ?_⟩
  intro hrule
  obtain rfl : rule = .expression := by simpa using hrule
  exact h.ended hst rfl rfl

/-- All moments are sound in the course of a task that was set about when it was ready. -/
theorem Descends.sound (h : Descends calls task r ms r' result) (hst : r.Steady s)
    (hready : task.Ready calls r) : ∀ m ∈ ms, m.Sound s := by
  induction h with
  | call h ih => exact h.sound_call hst hready (ih hst hready.follow)
  | expression hv hrest ihv ihrest =>
    have hms := ihv hst hready.value
    have hns := ihrest (hv.leads.steady hst) (hready.goOn hv.leads _)
    exact List.forall_mem_append.2 ⟨hms, hns⟩
  | expressionError hv ihv => exact ihv hst hready.value
  | operator hn hk hright hrest ihright ihrest =>
    have hleads := hright.leads_of_note hn
    have hms := ihright ((Reader.leads_note hn).steady hst) (hready.operand hst hn hk)
    have hns := ihrest (hleads.steady hst) (hready.goOn hleads _)
    exact List.forall_mem_append.2
      ⟨sound_nextMoments hst hready, List.forall_mem_append.2 ⟨hms, hns⟩⟩
  | operatorError hn hk hright ihright =>
    have hms := ihright ((Reader.leads_note hn).steady hst) (hready.operand hst hn hk)
    exact List.forall_mem_append.2 ⟨sound_nextMoments hst hready, hms⟩
  | rightParen hn hk =>
    have hleads := Reader.leads_putBack hn hk
    refine List.forall_mem_append.2 ⟨sound_nextMoments hst hready, ?_⟩
    rw [List.forall_mem_singleton]
    exact ⟨hleads.steady hst, hready.count_le hleads, nofun, nofun⟩
  | stop hn hparen hop => exact sound_nextMoments hst hready
  | @group calls _ _ _ _ _ _ _ e hn hk he hclose ihe =>
    have hleads := (Reader.leads_next hn).trans he.leads
    have hms := ihe (hst.next hn) (hready.group hst hn hk)
    have hns := sound_nextMoments (hleads.steady hst) (hready.goOn hleads e)
    exact List.forall_mem_append.2
      ⟨sound_nextMoments hst hready, List.forall_mem_append.2 ⟨hms, hns⟩⟩
  | groupError hn hk he ihe =>
    have hms := ihe (hst.next hn) (hready.group hst hn hk)
    exact List.forall_mem_append.2 ⟨sound_nextMoments hst hready, hms⟩
  | operand hn hk => exact sound_nextMoments hst hready

namespace Descent

lemma steady (h : Descent s ms r result) : r.Steady s := by
  cases h with
  | finish he hn => exact (he.leads.steady (Reader.steady_ofText s)).next hn
  | error he => exact he.leads.steady (Reader.steady_ofText s)

/-- In the course of reading the text all moments are sound. -/
theorem sound (h : Descent s ms r result) : ∀ m ∈ ms, m.Sound s := by
  have hst := Reader.steady_ofText s
  have hready : (Task.call .expression).Ready [] (.ofText s) := ⟨.inl rfl, le_rfl⟩
  cases h with
  | @finish _ _ _ _ e he hn =>
    have hms := he.sound hst hready
    have hns := sound_nextMoments (he.leads.steady hst) (hready.goOn he.leads e)
    exact List.forall_mem_append.2 ⟨hms, hns⟩
  | error he => exact he.sound hst hready

end Descent

end Calculator.Parsing
