import Calculator.CommandLine.Run
import Mathlib.Data.List.TakeWhile
import Mathlib.Tactic.Lemma

/-!
# Options and the expression

The arguments are looked at twice: the options are read off the front, and the expression is found
as what stands behind all options, by a rule of its own. The two stop at the same argument, which
is the first one that consists of no options. It starts the expression, also if it is the pair of
dashes that ends the options.
-/

namespace Calculator.CommandLine

variable {arg : String} {args operands : List String} {o o' : Options} {f : Flag} {fs : List Flag}
variable {c : Char} {cs : List Char}

/-! ### Letters and names -/

/-- The letter of an option, behind a single dash. -/
def Flag.letter : Flag → Char
  | .tokens => 't'
  | .tree => 'p'
  | .verbose => 'v'
  | .help => 'h'
  | .version => 'V'

/-- The name of an option, behind two dashes. -/
def Flag.name : Flag → String
  | .tokens => "tokens"
  | .tree => "tree"
  | .verbose => "verbose"
  | .help => "help"
  | .version => "version"

lemma ofLetter?_eq_some_iff : Flag.ofLetter? c = some f ↔ c = f.letter := by
  constructor
  · fun_cases Flag.ofLetter? c <;> rintro ⟨⟩ <;> rfl
  · rintro rfl
    cases f <;> rfl

lemma ofName?_eq_some_iff : Flag.ofName? cs = some f ↔ cs = f.name.toList := by
  constructor
  · fun_cases Flag.ofName? cs <;> rintro ⟨⟩ <;> assumption
  · rintro rfl
    cases f <;> decide

lemma mapM_ofLetter?_eq_some_iff : cs.mapM Flag.ofLetter? = some fs ↔ cs = fs.map Flag.letter := by
  induction cs generalizing fs with
  | nil => simp [eq_comm]
  | cons c cs ih =>
    simp only [List.mapM_cons, Option.bind_eq_bind, Option.pure_def, Option.bind_eq_some_iff]
    cases fs with
    | nil => simp
    | cons f fs => simp [ofLetter?_eq_some_iff, ih]

/-! ### Arguments that consist of options -/

/-- An argument that is taken for options as long as they are read: the name of one behind two
dashes, or letters behind one dash, each of which stands for an option. -/
def IsOption (arg : String) : Prop :=
  (∃ name ∈ ["tokens", "tree", "verbose", "help", "version"], arg = "--" ++ name) ∨
    ∃ cs, cs ≠ [] ∧ arg.toList = '-' :: cs ∧ ∀ c ∈ cs, c ∈ ['t', 'p', 'v', 'h', 'V']

lemma ofName?_isSome_iff :
    (Flag.ofName? cs).isSome = true ↔
      .ofList cs ∈ ["tokens", "tree", "verbose", "help", "version"] := by
  have hname (name : String) : String.ofList cs = name ↔ cs = name.toList := by
    rw [← String.toList_inj, String.toList_ofList]
  simp only [List.mem_cons, List.not_mem_nil, or_false, hname]
  fun_cases Flag.ofName? cs <;> simp_all

lemma not_mem_of_ofName? (h : (Flag.ofName? cs).isSome = true) : '=' ∉ cs := by
  rw [ofName?_isSome_iff] at h
  have hnone : ∀ name ∈ ["tokens", "tree", "verbose", "help", "version"], '=' ∉ name.toList := by
    decide
  simpa using hnone _ h

lemma ofLetter?_isSome_iff :
    (Flag.ofLetter? c).isSome = true ↔ c ∈ ['t', 'p', 'v', 'h', 'V'] := by
  fun_cases Flag.ofLetter? c <;> simp_all

lemma mapM_ofLetter?_isSome_iff :
    (cs.mapM Flag.ofLetter?).isSome = true ↔ ∀ c ∈ cs, c ∈ ['t', 'p', 'v', 'h', 'V'] := by
  induction cs with
  | nil => simp
  | cons c cs ih =>
    rw [List.forall_mem_cons, ← ih, ← ofLetter?_isSome_iff]
    cases hc : Flag.ofLetter? c <;> cases hcs : cs.mapM Flag.ofLetter? <;>
      simp [List.mapM_cons, hc, hcs]

lemma isOption_of_dashes (h : arg.toList = '-' :: '-' :: cs) :
    IsOption arg ↔ (Flag.ofName? cs).isSome = true := by
  have hdash : '-' ∉ ['t', 'p', 'v', 'h', 'V'] := by decide
  rw [ofName?_isSome_iff, IsOption]
  constructor
  · rintro (⟨name, hmem, rfl⟩ | ⟨ds, -, hds, hletters⟩)
    · have : cs = name.toList := by simpa using h.symm
      rwa [this, String.ofList_toList]
    · rw [h] at hds
      obtain ⟨-, rfl⟩ := List.cons.inj hds
      exact absurd (hletters '-' List.mem_cons_self) hdash
  · intro hmem
    refine .inl ⟨_, hmem, ?_⟩
    rw [← String.toList_inj, h]
    simp

lemma isOption_of_dash (h : arg.toList = '-' :: c :: cs) (hc : c ≠ '-') :
    IsOption arg ↔ ((c :: cs).mapM Flag.ofLetter?).isSome = true := by
  rw [mapM_ofLetter?_isSome_iff, IsOption]
  constructor
  · rintro (⟨name, -, rfl⟩ | ⟨ds, -, hds, hletters⟩)
    · rw [String.toList_append] at h
      obtain ⟨rfl, -⟩ := List.cons.inj (List.cons.inj h).2
      exact absurd rfl hc
    · rw [h] at hds
      obtain ⟨-, rfl⟩ := List.cons.inj hds
      exact hletters
  · intro hletters
    exact .inr ⟨c :: cs, List.cons_ne_nil c cs, h, hletters⟩

lemma takeWhile_of_not_mem (h : '=' ∉ cs) : cs.takeWhile (· ≠ '=') = cs := by
  rw [List.takeWhile_eq_self_iff]
  intro c hc
  simpa using ne_of_mem_of_not_mem hc h

/-- The arguments that are taken for options. -/
theorem ofText_eq_flags_iff : (∃ fs, Argument.ofText arg = .flags fs) ↔ IsOption arg := by
  fun_cases Argument.ofText arg with
  | case1 h => simp [isOption_of_dashes h, Flag.ofName?]
  | case2 cs hcs h f hf heq =>
    simp only [reduceCtorEq, exists_false, false_iff, isOption_of_dashes h]
    intro hname
    exact not_mem_of_ofName? hname heq
  | case3 cs hcs h f hf heq =>
    rw [takeWhile_of_not_mem heq] at hf
    simp [isOption_of_dashes h, hf]
  | case4 cs hcs h hf =>
    simp only [reduceCtorEq, exists_false, false_iff, isOption_of_dashes h]
    intro hname
    rw [takeWhile_of_not_mem (not_mem_of_ofName? hname)] at hf
    simp [hf] at hname
  | case5 c cs _ hc h fs hfs => simp [isOption_of_dash h hc, hfs]
  | case6 c cs _ hc h hfs => simp [isOption_of_dash h hc, hfs]
  | case7 _ hdashes hdash =>
    simp only [reduceCtorEq, exists_false, false_iff]
    rintro (⟨name, -, rfl⟩ | ⟨cs, hne, hcs, -⟩)
    · rw [String.toList_append] at hdashes
      exact hdashes name.toList rfl
    · obtain ⟨d, ds, rfl⟩ := List.exists_cons_of_ne_nil hne
      exact hdash d ds hcs

/-! ### Arguments that are passed over -/

lemma isOption_of_isFlag (h : isFlag arg = true) : IsOption arg := by
  revert h
  fun_cases isFlag arg with
  | case1 h =>
    rintro -
    rcases h with rfl | rfl | rfl
    · exact .inl ⟨"tokens", by simp, rfl⟩
    · exact .inl ⟨"tree", by simp, rfl⟩
    · exact .inl ⟨"verbose", by simp, rfl⟩
  | case2 h c cs hcs =>
    intro hall
    refine .inr ⟨c :: cs, List.cons_ne_nil c cs, hcs, ?_⟩
    intro d hd
    have hd := List.all_eq_true.1 hall d hd
    grind
  | case3 => rintro ⟨⟩

lemma mem_of_addAll (h : o.addAll fs = .ok o') (hf : f ∈ fs) :
    f ∈ [Flag.tokens, .tree, .verbose] := by
  induction fs generalizing o with
  | nil => cases hf
  | cons g fs ih =>
    rw [Options.addAll] at h
    cases hg : o.add g with
    | error request =>
      rw [hg] at h
      cases h
    | ok o₁ =>
      rw [hg] at h
      rcases List.mem_cons.1 hf with rfl | hf
      · cases f with
        | help => cases hg
        | version => cases hg
        | _ => simp
      · exact ih h hf

lemma isFlag_name (hf : f ∈ [Flag.tokens, .tree, .verbose]) : isFlag ("--" ++ f.name) = true := by
  simp only [List.mem_cons, List.not_mem_nil, or_false] at hf
  rcases hf with rfl | rfl | rfl <;> rfl

lemma isFlag_letters (hfs : ∀ f ∈ fs, f ∈ [Flag.tokens, .tree, .verbose]) (hne : fs ≠ [])
    (h : arg.toList = '-' :: fs.map Flag.letter) : isFlag arg = true := by
  obtain ⟨f, fs, rfl⟩ := List.exists_cons_of_ne_nil hne
  have hletters :
      ((f :: fs).map Flag.letter).all (fun d => d = 't' ∨ d = 'p' ∨ d = 'v') = true := by
    rw [List.all_map, List.all_eq_true]
    intro g hg
    have hg := hfs g hg
    cases g <;> simp_all [Flag.letter]
  rw [isFlag]
  split
  · rfl
  · rw [h]
    exact hletters

/-- Options that ask for neither help nor the version are passed over. -/
lemma isFlag_of_addAll (hfs : Argument.ofText arg = .flags fs) (h : o.addAll fs = .ok o') :
    isFlag arg = true := by
  have hmem (f : Flag) (hf : f ∈ fs) := mem_of_addAll h hf
  revert hfs
  fun_cases Argument.ofText arg with
  | case3 cs hcs hlist f hf heq =>
    rintro ⟨⟩
    rw [takeWhile_of_not_mem heq, ofName?_eq_some_iff] at hf
    obtain rfl : arg = "--" ++ f.name := by
      rw [← String.toList_inj, hlist, hf]
      simp
    exact isFlag_name (hmem f List.mem_cons_self)
  | case5 c cs _ hc hlist gs hgs =>
    rintro ⟨⟩
    rw [mapM_ofLetter?_eq_some_iff] at hgs
    rw [hgs] at hlist
    refine isFlag_letters hmem ?_ hlist
    rintro rfl
    cases hgs
  | _ => rintro ⟨⟩

/-! ### Where the expression starts -/

lemma eq_dashes_of_separator (h : Argument.ofText arg = .separator) : arg = "--" := by
  revert h
  fun_cases Argument.ofText arg with
  | case1 h =>
    rintro -
    rw [← String.toList_inj, h]
    rfl
  | case2 => rintro ⟨⟩
  | case3 => rintro ⟨⟩
  | case4 => rintro ⟨⟩
  | case5 => rintro ⟨⟩
  | case6 => rintro ⟨⟩
  | case7 => rintro ⟨⟩

lemma addAll_ne_calculate : o.addAll fs ≠ .error (.calculate o' operands) := by
  fun_induction Options.addAll o fs with
  | case1 => simp
  | case2 o f fs o₁ ho ih => exact ih
  | case3 o f fs request ho =>
    rintro ⟨⟩
    revert ho
    fun_cases Options.add o f <;> simp

/-- The options are read up to the first argument that consists of none. -/
lemma exists_of_read (h : o.read args = .calculate o' operands) :
    ∃ flags first rest, args = flags ++ first :: rest ∧
      (∀ flag ∈ flags, IsOption flag ∧ isFlag flag = true) ∧ ¬ IsOption first ∧ operands ≠ [] ∧
      (first ≠ "--" ∧ operands = first :: rest ∨ first = "--" ∧ operands = rest) := by
  fun_induction Options.read o args with
  | case1 => cases h
  | case2 o arg args fs hfs o₁ ho ih =>
    -- options of both sorts, since they go with an expression
    obtain ⟨flags, first, rest, rfl, hflags, hrest⟩ := ih h
    refine ⟨arg :: flags, first, rest, rfl, ?_, hrest⟩
    have harg : IsOption arg ∧ isFlag arg = true :=
      ⟨ofText_eq_flags_iff.1 ⟨fs, hfs⟩, isFlag_of_addAll hfs ho⟩
    simpa [harg] using hflags
  | case3 o arg args fs hfs request ho => exact absurd (h ▸ ho) addAll_ne_calculate
  | case4 => cases h
  | case5 => cases h
  | case6 o arg args harg hne =>
    cases h
    have hnot : ¬ IsOption arg := by simp [← ofText_eq_flags_iff, harg]
    exact ⟨[], arg, operands, rfl, by simp, hnot, hne, .inr ⟨eq_dashes_of_separator harg, rfl⟩⟩
  | case7 o arg args harg =>
    cases h
    have hnot : ¬ IsOption arg := by simp [← ofText_eq_flags_iff, harg]
    have hdashes : arg ≠ "--" := by
      rintro rfl
      cases harg
    exact ⟨[], arg, args, rfl, by simp, hnot, by simp, .inl ⟨hdashes, rfl⟩⟩

/-- If the arguments ask for a calculation, then what is passed over in front of the expression are
the options, and all of them. The expression starts at the first argument that consists of no
options, and its arguments are the operands, behind a pair of dashes if the options end with one. -/
theorem expressionArguments_eq (args : List String) (o : Options) (operands : List String)
    (h : Request.ofArguments args = .calculate o operands) :
    ∃ flags first rest, args = flags ++ first :: rest ∧
      (∀ flag ∈ flags, IsOption flag ∧ isFlag flag = true) ∧ ¬ IsOption first ∧
      expressionArguments args = first :: rest ∧
      (first ≠ "--" ∧ expressionArguments args = operands ∨
        first = "--" ∧ expressionArguments args = "--" :: operands) ∧
      operands ≠ [] ∧ ∃ front, expression args = front ++ " ".intercalate operands := by
  obtain ⟨flags, first, rest, rfl, hflags, hfirst, hne, hrest⟩ := exists_of_read h
  have hpassed : ∀ flag ∈ flags, isFlag flag = true := by
    intro flag hflag
    exact (hflags flag hflag).2
  have hkept : ¬ isFlag first = true := by
    intro hflag
    exact hfirst (isOption_of_isFlag hflag)
  have harguments : expressionArguments (flags ++ first :: rest) = first :: rest := by
    rw [expressionArguments, List.dropWhile_append_of_pos hpassed, List.dropWhile_cons_of_neg hkept]
  refine ⟨flags, first, rest, rfl, hflags, hfirst, harguments, ?_, hne, ?_⟩
  · rw [harguments]
    rcases hrest with ⟨hdashes, rfl⟩ | ⟨rfl, rfl⟩
    · exact .inl ⟨hdashes, rfl⟩
    · exact .inr ⟨rfl, rfl⟩
  · rw [expression, harguments]
    rcases hrest with ⟨-, rfl⟩ | ⟨rfl, rfl⟩
    · exact ⟨"", by simp⟩
    · exact ⟨"--" ++ " ", String.intercalate_cons_of_ne_nil hne⟩

theorem expressionArguments_eq_dashes :
    Request.ofArguments ["-vp", "--", "-t", "1"] = .calculate ⟨false, true, 1⟩ ["-t", "1"] ∧
      ∃ flags first rest, ["-vp", "--", "-t", "1"] = flags ++ first :: rest ∧
        (∀ flag ∈ flags, IsOption flag ∧ isFlag flag = true) ∧ ¬ IsOption first ∧
        expressionArguments ["-vp", "--", "-t", "1"] = first :: rest := by
  have h : Request.ofArguments ["-vp", "--", "-t", "1"] =
      .calculate ⟨false, true, 1⟩ ["-t", "1"] := by decide
  obtain ⟨flags, first, rest, hargs, hflags, hfirst, harguments, -⟩ :=
    expressionArguments_eq _ _ _ h
  exact ⟨h, flags, first, rest, hargs, hflags, hfirst, harguments⟩

end Calculator.CommandLine
