import Calculator.Proofs.CommandLine.Arguments
import Calculator.Proofs.Parsing.Rejection

/-!
# Values with and without the expression

A value is written in one of two ways: by itself, or behind the expression that it is the value of.
The two runs do the same work by different routes. They succeed and fail alike, and with the same
failure; the second one puts the expression in front of what the first one writes, and leaves out
of the log what a calculation tells about the expression and its value.
-/

namespace Calculator.CommandLine

variable {s : String} {args operands : List String} {o o' : Options} {fs : List Flag}

/-! ### Logs -/

/-- A record of the calculator on an expression or on its value. -/
def isDebug (r : Log.Record) : Bool :=
  r.level = .debug ∧ r.target = "calc"

lemma filter_isDebug_parse (p : Parse) : p.log.filter (fun r => !isDebug r) = p.log := by
  rw [List.filter_eq_self]
  intro r hr
  obtain ⟨event, -, rfl⟩ := List.mem_map.1 hr
  rfl

lemma filter_isDebug_expr (e : Expr) : e.log.filter (fun r => !isDebug r) = [] := by
  rw [Expr.log]
  cases e.eval with
  | ok x => rfl
  | error d => rfl

lemma filter_isDebug_calculationLog (s : String) :
    (calculationLog s).filter (fun r => !isDebug r) = (parse s).log := by
  rw [calculationLog, List.filter_append, filter_isDebug_parse]
  cases (parse s).result with
  | ok e => simp [filter_isDebug_expr]
  | error e => simp

lemma filter_isDebug_limit (limit : Option Log.Level) (rs : List Log.Record) :
    (Log.filter limit rs).filter (fun r => !isDebug r) =
      Log.filter limit (rs.filter fun r => !isDebug r) := by
  simp only [Log.filter, List.filter_filter, Bool.and_comm]

/-! ### Runs -/

/-- The run that writes the expression out against the one that does not. -/
structure Agree (s : String) (plain tree : Outcome) : Prop where
  ok : ∀ x, calculate s = .ok x →
    plain.exitCode = 0 ∧ tree.exitCode = 0 ∧ plain.failure = none ∧ tree.failure = none ∧
      plain.output = x.text ++ "\n"
  error : ∀ f, calculate s = .error f →
    plain.exitCode = 1 ∧ tree.exitCode = 1 ∧ plain.failure = some f ∧ tree.failure = some f ∧
      f.diagnostic.namedSource = some ("<expression>", s) ∧ plain.output = ""
  tree_ok : ∀ e, (parse s).result = .ok e → tree.output = e.text ++ "\n" ++ plain.output
  tree_error : ∀ e, (parse s).result = .error e → tree.output = ""
  log : tree.log = plain.log.filter fun r => !isDebug r

/-- What the run that writes the expression out puts in front of the value. -/
def front (s : String) : String :=
  match (parse s).result with
  | .ok e => line e.text
  | .error _ => ""

lemma calculate_of_parse_error {e : SyntaxError} (h : (parse s).result = .error e) :
    calculate s = .error (.malformed e) := by
  rw [calculate, h]

lemma calculate_of_parse_ok {e : Expr} (h : (parse s).result = .ok e) :
    calculate s = e.evalIn s := by
  rw [calculate, h]

lemma namedSource_of_calculate {f : Failure} (h : calculate s = .error f) :
    f.diagnostic.namedSource = some ("<expression>", s) := by
  cases hs : (parse s).result with
  | error e =>
    rw [calculate_of_parse_error hs] at h
    cases h
    rw [← (Parsing.parse_eq_error_iff.1 hs).1]
    rfl
  | ok e =>
    rw [calculate_of_parse_ok hs, Expr.evalIn] at h
    cases he : e.eval with
    | ok x =>
      rw [he] at h
      cases h
    | error d =>
      rw [he] at h
      cases h
      rfl

/-- Both runs conclude with the value of the expression. -/
lemma writeTree_eq (s : String) :
    writeTree s = conclude (front s) (parse s).log (calculate s) := by
  rw [writeTree, front]
  cases hs : (parse s).result with
  | error e => rw [calculate_of_parse_error hs]
  | ok e => rw [calculate_of_parse_ok hs]

lemma agree_write (s : String) : Agree s (writeValue s) (writeTree s) := by
  rw [writeValue, writeTree_eq]
  constructor
  case ok =>
    intro x hx
    rw [hx]
    exact ⟨rfl, rfl, rfl, rfl, String.empty_append⟩
  case error =>
    intro f hf
    rw [hf]
    exact ⟨rfl, rfl, rfl, rfl, namedSource_of_calculate hf, rfl⟩
  case tree_ok =>
    intro e he
    rw [front, he]
    cases calculate s with
    | ok x => simp [conclude, line, String.append_assoc]
    | error f => simp [conclude, line]
  case tree_error =>
    intro e he
    rw [front, he, calculate_of_parse_error he]
    rfl
  case log =>
    cases calculate s with
    | ok x => exact (filter_isDebug_calculationLog s).symm
    | error f => exact (filter_isDebug_calculationLog s).symm

/-- Limiting the log and putting a record in front of it does not change how two runs agree. -/
lemma Agree.limit {plain tree : Outcome} (h : Agree s plain tree) (limit : Option Log.Level)
    {opening : Log.Record} (hopening : isDebug opening = false) :
    Agree s { plain with log := Log.filter limit (opening :: plain.log) }
      { tree with log := Log.filter limit (opening :: tree.log) } where
  ok := h.ok
  error := h.error
  tree_ok := h.tree_ok
  tree_error := h.tree_error
  log := by
    rw [filter_isDebug_limit, List.filter_cons_of_pos (by simpa using hopening), ← h.log]

lemma agree_evaluate (s : String) (htokens : o.tokens = false) (htree : o.tree = false) :
    Agree s (evaluate o s) (evaluate { o with tree := true } s) := by
  have hopening : isDebug ⟨.info, "calc", "evaluating `" ++ s ++ "`"⟩ = false := rfl
  simpa [evaluate, htokens, htree, Options.limit] using
    (agree_write s).limit (some o.limit) hopening

/-! ### Asking for the expression -/

lemma tree_of_addAll (h : o.addAll fs = .ok o') (ho : o.tree = true) : o'.tree = true := by
  fun_induction Options.addAll o fs with
  | case1 o =>
    cases h
    exact ho
  | case2 o f fs o₁ hf ih =>
    apply ih h
    revert hf
    fun_cases Options.add o f <;> grind
  | case3 => cases h

lemma add_tree {f : Flag} (h : o.add f = .ok o') (ho : o'.tree = false) :
    Options.add { o with tree := true } f = .ok { o' with tree := true } := by
  cases f with
  | tokens =>
    rw [Options.add] at h ⊢
    split at h
    · cases h
    · next hnot =>
      cases h
      exact if_neg hnot
  | tree =>
    rw [Options.add] at h
    split at h
    · cases h
    · cases h
      cases ho
  | verbose =>
    cases h
    rfl
  | help => cases h
  | version => cases h

lemma addAll_tree (h : o.addAll fs = .ok o') (ho : o'.tree = false) :
    Options.addAll { o with tree := true } fs = .ok { o' with tree := true } := by
  fun_induction Options.addAll o fs with
  | case1 o =>
    cases h
    rfl
  | case2 o f fs o₁ hf ih =>
    have ho₁ : o₁.tree = false := by
      by_contra hnot
      simp [tree_of_addAll h (by simpa using hnot)] at ho
    rw [Options.addAll, add_tree hf ho₁]
    exact ih h
  | case3 => cases h

lemma tree_of_read (h : o.read args = .calculate o' operands) (ho : o.tree = true) :
    o'.tree = true := by
  fun_induction Options.read o args with
  | case1 => cases h
  | case2 o arg args fs hfs o₁ hadd ih => exact ih h (tree_of_addAll hadd ho)
  | case3 o arg args fs hfs request hadd => exact absurd (h ▸ hadd) addAll_ne_calculate
  | case4 => cases h
  | case5 => cases h
  | case6 =>
    cases h
    exact ho
  | case7 =>
    cases h
    exact ho

lemma read_tree (h : o.read args = .calculate o' operands) (ho : o'.tree = false) :
    Options.read { o with tree := true } args = .calculate { o' with tree := true } operands := by
  fun_induction Options.read o args with
  | case1 => cases h
  | case2 o arg args fs hfs o₁ hadd ih =>
    have ho₁ : o₁.tree = false := by
      by_contra hnot
      simp [tree_of_read h (by simpa using hnot)] at ho
    simp only [Options.read, hfs, addAll_tree hadd ho₁]
    exact ih h
  | case3 o arg args fs hfs request hadd => exact absurd (h ▸ hadd) addAll_ne_calculate
  | case4 => cases h
  | case5 => cases h
  | case6 o arg args harg hne =>
    cases h
    simp [Options.read, harg, hne]
  | case7 o arg args harg =>
    cases h
    simp [Options.read, harg]

/-- Asking for the expression in front of all other arguments changes nothing else. -/
lemma ofArguments_tree (h : Request.ofArguments args = .calculate o operands)
    (htree : o.tree = false) :
    Request.ofArguments ("-p" :: args) = .calculate { o with tree := true } operands ∧
      expression ("-p" :: args) = expression args := by
  constructor
  · have := read_tree h htree
    exact this
  · rw [expression, expressionArguments, List.dropWhile_cons_of_pos (by decide)]
    rfl

/-- The runs with and without the expression agree, whatever the other options are, unless they ask
for the tokens; any calculation can be asked for with the expression as well. A run that is asked
for the tokens lists them, one to a line, whether or not they make up an expression. -/
theorem run_agree :
    (∀ (args args' : List String) (o : Options) (operands operands' : List String),
      Request.ofArguments args = .calculate o operands → o.tokens = false → o.tree = false →
      Request.ofArguments args' = .calculate { o with tree := true } operands' →
      expression args' = expression args → Agree (expression args) (run args) (run args')) ∧
    (∀ (args : List String) (o : Options) (operands : List String),
      Request.ofArguments args = .calculate o operands → o.tree = false →
      Request.ofArguments ("-p" :: args) = .calculate { o with tree := true } operands ∧
        expression ("-p" :: args) = expression args) ∧
    ∀ (args : List String) (o : Options) (operands : List String),
      Request.ofArguments args = .calculate o operands → o.tokens = true →
      (run args).exitCode = 0 ∧ (run args).failure = none ∧
        (run args).output =
          .join ((Token.tokens (expression args)).map fun t => t.text ++ "\n") := by
  refine ⟨?_, ?_, ?_⟩
  · intro args args' o operands operands' h htokens htree h' hs
    simp only [run, h, h', hs]
    exact agree_evaluate _ htokens htree
  · intro args o operands h htree
    exact ofArguments_tree h htree
  · intro args o operands h htokens
    simp only [run, h, evaluate, htokens, if_true]
    exact ⟨rfl, rfl, rfl⟩

theorem run_agree_quotient :
    Request.ofArguments ["-v", "1/0"] = .calculate ⟨false, false, 1⟩ ["1/0"] ∧
      Request.ofArguments ["-pv", "1/0"] = .calculate ⟨false, true, 1⟩ ["1/0"] ∧
      Agree "1/0" (run ["-v", "1/0"]) (run ["-pv", "1/0"]) := by
  have h : Request.ofArguments ["-v", "1/0"] = .calculate ⟨false, false, 1⟩ ["1/0"] := by decide
  have h' : Request.ofArguments ["-pv", "1/0"] = .calculate ⟨false, true, 1⟩ ["1/0"] := by decide
  exact ⟨h, h', run_agree.1 _ _ _ _ _ h rfl rfl h' (by decide)⟩

end Calculator.CommandLine
